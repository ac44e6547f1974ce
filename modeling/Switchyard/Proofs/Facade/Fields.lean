import Switchyard.Proofs.Facade.Confined

/-!
# What a greenlet has in each state

A greenlet has a stack while it is running or suspended and a run function until it starts. The
main greenlet of a thread has neither, and no parent. So whether a greenlet is active can be told
from its stack as well as from its run state. There is one short moment in which it cannot: the
driver gives a greenlet its first stack before it makes it the current one. It runs no script and
drops nothing in between.
-/

namespace Switchyard

/-- What the greenlet has is what its run state tells. -/
structure Greenlet.Agrees (g : Greenlet) : Prop where
  stack : g.isMain = false → (g.hasStack = true ↔ g.state = .running ∨ g.state = .suspended)
  run : g.isMain = false → (g.run.isSome = true ↔ g.state = .unstarted)
  main : g.isMain = true → g.hasStack = false ∧ g.run = none ∧ g.parent = none
  active : g.isActive = g.state.isActive

theorem Item.edge_eq_entering {s : List (Item Task)} {r : Ref} (h : edge s = .entering r) :
    ∃ k f rest, s = .task (.driveRegister k r f) :: rest := by
  unfold edge at h
  split at h
  · rename_i k t f rest
    obtain rfl : t = r := Edge.entering.inj h
    exact ⟨k, f, rest, rfl⟩
  · cases h
  · cases h

theorem Scene.Suits.agrees_of_open {A : Prop} {s : Scene} {r : Ref} {g : Greenlet} (hs : s.Suits A r g)
    (hm : g.isMain = false) (he : s.edge ≠ .entering r) : g.Agrees := by
  have hstart (hu : g.state = .unstarted) : g.run ≠ none ∧ g.fiber = none := by
    have hr : g.run ≠ none := fun hr => he (hs.entering hu hr)
    exact ⟨hr, (hs.run hr).2⟩
  have hfiber : g.hasStack = true ↔ g.state = .running ∨ g.state = .suspended := by
    rw [Greenlet.hasStack, Option.isSome_iff_ne_none]
    constructor
    · intro hf
      cases hstate : g.state with
      | unstarted => exact absurd (hstart hstate).2 hf
      | dead => exact absurd (hs.dead hstate).2 hf
      | running => exact .inl rfl
      | suspended => exact .inr rfl
    · intro hr hf
      rcases hs.bare hm hf with h | h <;> rw [h] at hr <;> simp at hr
  refine ⟨fun _ => hfiber, fun _ => ?_, fun h => ?_, ?_⟩
  · rw [Option.isSome_iff_ne_none]
    exact ⟨fun hr => (hs.run hr).1, fun hu => (hstart hu).1⟩
  · rw [hm] at h; cases h
  · rw [Greenlet.isActive, hm, Bool.false_and, Bool.or_false, Bool.eq_iff_iff, hfiber]
    cases g.state <;> simp [RunState.isActive]

namespace World

variable {A : Prop} {w₀ w : World} {h : HubId} {r : Ref} {n : Nat} {g : Greenlet}
  {tr : List World}

/-- The driver of some thread has given `r` its stack and is about to make it the current one. -/
def Dresses (w : World) (r : Ref) : Prop :=
  ∃ i k f below, w.stackAt i = .task (.driveRegister k r f) :: below

theorem Decent.agrees_main (hd : w.Decent r n g) (hm : g.isMain = true) : g.Agrees := by
  obtain ⟨hrun, hparent, hstate⟩ := hd.main hm
  have hfiber : g.fiber = none := by
    by_contra hf
    have := (hd.spent hf).2
    rw [hm] at this
    cases this
  have hstack : g.hasStack = false := by rw [Greenlet.hasStack, hfiber]; rfl
  refine ⟨fun h => ?_, fun h => ?_, fun _ => ⟨hstack, hrun, hparent⟩, ?_⟩
  · rw [hm] at h; cases h
  · rw [hm] at h; cases h
  · rw [Greenlet.isActive, hstack, hm]
    cases hs : g.state <;> first | rfl | exact absurd hs hstate

theorem Decent.agrees_of_closed (hd : w.Decent r n g) (hn : 0 < n)
    (hc : (w.hub g.hub).closed = true) (hm : g.isMain = false) : g.Agrees := by
  obtain ⟨hstate, hrun⟩ := hd.ended hc hm hn
  have hfiber := hd.shut hc
  constructor <;> simp [Greenlet.hasStack, Greenlet.isActive, RunState.isActive, hfiber, hstate,
    hrun, hm]

/-- A greenlet agrees unless the driver of its thread is about to make it current. -/
theorem Sound.agrees_or_dresses (hs : Sound A w) (hl : w.living? r = some g) : g.Agrees ∨ w.Dresses r := by
  obtain ⟨n, hn, ho⟩ := living?_eq_some_iff.mp hl
  obtain ⟨_, _, hst⟩ := hs.staging
  have hd := hst.greenlets r n g ho
  cases hm : g.isMain with
  | true => exact .inl (hd.agrees_main hm)
  | false =>
    cases hc : (w.hub g.hub).closed with
    | true => exact .inl (hd.agrees_of_closed hn hc hm)
    | false =>
      have hpos : 0 < (w.hub g.hub).thread := (hst.hubs _ hd.hub).thread.1
      have hown : w.Owned g.hub ((w.hub g.hub).thread - 1) :=
        ⟨hd.hub, (Nat.sub_add_cancel hpos).symm⟩
      obtain ⟨m, -, -, hstaged⟩ := hs.place hown
      have hsuits := (hstaged.fine hc).suits r g hl rfl
      by_cases he : Item.edge (w.stackAt ((w.hub g.hub).thread - 1)) = .entering r
      · obtain ⟨k, f, rest, hrest⟩ := Item.edge_eq_entering he
        exact .inr ⟨_, k, f, rest, hrest⟩
      · exact .inl (hsuits.agrees_of_open hm he)

/-- At every point of a run on the facade each greenlet that somebody refers to agrees with its run
state, unless its thread is between giving it a stack and making it the current greenlet. -/
theorem Run.agrees (hs : w₀.Starts) (h : Run w₀ tr w) (hf : ∀ v ∈ tr, v.OnFacade)
    (hl : w.living? r = some g) : g.Agrees ∨ w.Dresses r :=
  (h.sound hs hf).agrees_or_dresses hl

/-- The stack of a dropped greenlet is being unwound. The greenlet is dead and has no stack. -/
theorem Run.agrees_swallowing : ∃ tr g, Run swallowing tr (swallowing.run 60) ∧
    (∀ v ∈ tr, v.OnFacade) ∧ (swallowing.run 60).living? 1 = some g ∧
      (g.Agrees ∨ (swallowing.run 60).Dresses 1) := by
  obtain ⟨tr, h, hf⟩ := (@Run.start swallowing).run_all (p := World.OnFacade) (n := 60)
    (by decide +kernel)
  rw [List.append_nil] at h
  obtain ⟨g, hg⟩ := Option.isSome_iff_exists.mp
    (show ((swallowing.run 60).living? 1).isSome = true by decide +kernel)
  exact ⟨tr, g, h, hf, hg, Run.agrees (.script ..) h hf hg⟩

end World

end Switchyard
