import Switchyard.Proofs.Facade.Alters

/-!
# The current greenlet

At most one greenlet of a hub is running, and the hub calls it current. Where ordinary code runs, on
the original stack of a thread or in a fiber, the current greenlet is the one whose stack that is.
-/

namespace Switchyard

open World

namespace Mode

variable {s : List (Item Task)} {m : Mode}

/-- Where nothing keeps code from switching, no stack is unwound, and the driver has called a fiber
or is not at work. -/
theorem of_unconfined (h : of s = some m) (hs : ∀ x ∈ s, x.confines = false) :
    m.unwinding = .none ∧ (m.ground.isDriving = true → m.ground.isRunning = true) := by
  induction s generalizing m with
  | nil =>
    obtain rfl := Option.some.inj h
    exact ⟨rfl, nofun⟩
  | cons i s ih =>
    obtain ⟨⟨g, u⟩, h₀, hi⟩ := of_cons h
    obtain ⟨hu, hg⟩ := ih h₀ fun x hx => hs x (List.mem_cons_of_mem _ hx)
    obtain rfl : u = .none := hu
    cases i with
    | base f forced =>
      rcases of_step_base hi with ⟨-, r, -, rfl⟩ | ⟨-, g', r, he, -⟩
      · exact ⟨rfl, fun _ => rfl⟩
      · cases he
    | task t =>
      have hc := hs (.task t) List.mem_cons_self
      unfold Item.confines at hc
      dsimp only at hc
      cases hr : t.role with
      | code | fail =>
        rcases of_step_signal hi (by simp [hr]) with ⟨rfl, -⟩ | ⟨-, g', r, f, he, -⟩
        · exact ⟨rfl, hg⟩
        · cases he
      | release =>
        obtain ⟨rfl, -⟩ := of_step_release hi hr
        exact ⟨rfl, hg⟩
      | entry f =>
        rcases of_step_entry hi hr with ⟨r, -, rfl⟩ | ⟨g', r, he, -⟩
        · exact ⟨rfl, fun _ => rfl⟩
        · cases he
      | resumed =>
        rcases of_step_resuming hi hr with ⟨r, f, -, rfl⟩ | ⟨g', r, f, he, -⟩
        · exact ⟨rfl, fun _ => rfl⟩
        · cases he
      | suspend f =>
        obtain ⟨r, -, rfl⟩ := of_step_suspend hi hr
        exact ⟨rfl, fun _ => rfl⟩
      | closing | asked | back =>
        obtain ⟨-, rfl⟩ := of_step_ground hi (by rw [hr]; rfl)
        exact ⟨rfl, by simp [Ground.isDriving, Ground.isRunning]⟩
      | driving | ready | starting | arrived | released =>
        rw [hr] at hc
        cases hc

theorem of_ordinary (h : of s = some m) (ho : m.isOpen = true)
    (hs : ∀ x ∈ s, x.confines = false) : m = .idle ∨ ∃ r f, m = ⟨.on r f .code, .none⟩ := by
  obtain ⟨hu, hg⟩ := of_unconfined h hs
  obtain ⟨g, u⟩ := m
  obtain rfl : u = .none := hu
  cases g with
  | idle => exact .inl rfl
  | on r f x =>
    cases x with
    | code => exact .inr ⟨r, f, rfl⟩
    | _ => cases ho
  | asked | back => cases ho
  | _ => cases hg rfl

end Mode

namespace World

variable {A : Prop} {w₀ w w' : World} {h : HubId} {r : Ref} {tr tr' : List World}

/-- The hub `h` knows which of its greenlets is running, and its main greenlet is alive. -/
structure Minds (w : World) (h : HubId) : Prop where
  running : ∀ r g, w.living? r = some g → g.thread = (w.hub h).thread → g.state = .running →
    r = (w.hub h).current
  main : ∃ g, w.living? (w.hub h).main = some g ∧ g.isMain = true ∧
    (g.state = .running ∨ g.state = .suspended)

/-- Where ordinary code runs on the thread of the hub `h`, the current greenlet is running, and the
stack that the code is on is its own: that of its fiber, or the original stack if it is the main
greenlet. -/
def Follows (w : World) (h : HubId) : Prop :=
  ∀ t below, w.stackAt ((w.hub h).thread - 1) = .task t :: below → t.role = .code →
    (∀ x ∈ below, x.confines = false) →
      ∃ g, w.living? (w.hub h).current = some g ∧ g.state = .running ∧
        match Control.split below with
        | some (_, f, _, _) => g.fiber = some ⟨(w.hub h).thread, f⟩
        | none => g.isMain = true

theorem Sound.living_of_hub (hs : Sound A w) (hh : h < w.hubs.size)
    (hr : .object r ∈ (w.hub h).tokens) (hb : w.Belongs r h) :
    ∃ g, w.living? r = some g ∧ g.hub = h := by
  have hpos : 0 < w.demand (.object r) := by
    have hs := Array.getElem?_eq_getElem hh
    have hle := le_total (fun s : Hub => s.tokens.count (.object r)) hs
    have hp := List.count_pos_iff.mpr hr
    rw [hub_of_some hs] at hp
    unfold demand
    omega
  have hcov := hs.covered (.object r) rfl
  rw [supply_object, List.count_nil] at hcov
  obtain ⟨⟨n, v⟩, ho⟩ := object?_of_count (w := w) (r := r) (by omega)
  rw [count_of_some ho] at hcov
  obtain ⟨g, rfl, hgh⟩ := hb.2 _ ho
  exact ⟨g, living?_eq_some_iff.mpr ⟨n, by simpa using Nat.lt_of_lt_of_le hpos hcov, ho⟩, hgh⟩

theorem Sound.main_current (hs : Sound A w) (hh : h < w.hubs.size)
    (hc : (w.hub h).closed = false) :
    (∃ g, w.living? (w.hub h).main = some g ∧ g.hub = h) ∧
      ∃ g, w.living? (w.hub h).current = some g ∧ g.hub = h := by
  obtain ⟨_, -, hst⟩ := hs.staging
  have ho := hst.hubs h hh
  have hd : (w.hub h).disposed = false := by
    by_contra hd
    rw [ho.disposed (by simpa using hd)] at hc
    cases hc
  exact ⟨hs.living_of_hub hh (by simp [Hub.tokens, hd]) ho.main,
    hs.living_of_hub hh (by simp [Hub.tokens, hd]) ho.current⟩

theorem Sound.scene_of_hub (hs : Sound A w) (hh : h < w.hubs.size)
    (hc : (w.hub h).closed = false) : w.Owned h ((w.hub h).thread - 1) ∧
      ∃ m, Mode.of (w.stackAt ((w.hub h).thread - 1)) = some m ∧
        (w.scene h m (Item.edge (w.stackAt ((w.hub h).thread - 1)))).Fine A h := by
  obtain ⟨_, -, hst⟩ := hs.staging
  have hpos : 0 < (w.hub h).thread := (hst.hubs h hh).thread.1
  have hown : w.Owned h ((w.hub h).thread - 1) := ⟨hh, (Nat.sub_add_cancel hpos).symm⟩
  obtain ⟨m, hm, -, hstaged⟩ := hs.place hown
  exact ⟨hown, m, hm, hstaged.fine hc⟩

theorem Sound.minds (hs : Sound A w) (hh : h < w.hubs.size) (hc : (w.hub h).closed = false) :
    w.Minds h := by
  obtain ⟨-, m, -, hfine⟩ := hs.scene_of_hub hh hc
  obtain ⟨⟨g, hg, hgh⟩, -⟩ := hs.main_current hh hc
  constructor
  · intro r k hk hth hrun
    obtain ⟨_, -, hst⟩ := hs.staging
    obtain ⟨n, -, hd⟩ := hst.decent (greenlet?_of_living hk)
    have hkh : k.hub = h := hst.unique _ _ hd.hub hh (hd.thread.symm.trans hth)
    exact (hfine.suits r k hk hkh).running hrun
  · have hsu := hfine.suits _ g hg hgh
    have hmain : g.isMain = true := hsu.main.mpr rfl
    exact ⟨g, hg, hmain, (hsu.stackless hmain).2.2⟩

theorem Sound.follows (hs : Sound False w) (hh : h < w.hubs.size)
    (hc : (w.hub h).closed = false) : w.Follows h := by
  intro t below hstk hrole hconf
  obtain ⟨-, m, hm, hfine⟩ := hs.scene_of_hub hh hc
  obtain ⟨-, g, hg, hgh⟩ := hs.main_current hh hc
  have hsu := hfine.suits _ g hg hgh
  rw [hstk] at hm
  obtain ⟨m₀, h₀, hi⟩ := Mode.of_cons hm
  obtain ⟨rfl, hopen⟩ := Mode.of_step_code hi hrole
  rcases Mode.of_ordinary h₀ hopen hconf with rfl | ⟨r, f, rfl⟩
  · have hcur : (w.hub h).current = (w.hub h).main := (hfine.home rfl).resolve_left id
    have hmain : g.isMain = true := hsu.main.mpr hcur
    have hrun : g.state = .running := by
      refine (hsu.current rfl).resolve_right fun hd => ?_
      rcases (hsu.stackless hmain).2.2 with h | h <;> rw [hd] at h <;> cases h
    refine ⟨g, hg, hrun, ?_⟩
    cases hsplit : Control.split below with
    | none => exact hmain
    | some x =>
      obtain ⟨above, f, forced, rest⟩ := x
      cases forced with
      | true =>
        have := hconf (.base f true) (by rw [(Control.split_eq hsplit).1]; simp)
        cases this
      | false =>
        obtain ⟨r, x, he⟩ := Mode.of_split h₀ hsplit
        cases he
  · obtain ⟨above, rest, -, hsplit, -⟩ := Mode.of_on h₀
    have hcur : (w.hub h).current = r := hfine.seated r f rfl rfl
    obtain ⟨hfib, hrun⟩ := hsu.turn f (by rw [hcur]; rfl)
    refine ⟨g, hg, hrun rfl, ?_⟩
    rw [hsplit]
    exact hfib

/-- Greenlets that are dead in `w` stay dead until `w'`. -/
def Buries (w w' : World) : Prop :=
  ∀ r g g', w.greenlet? r = some g → g.state = .dead → w'.greenlet? r = some g' → g'.state = .dead

/-- In a run on the facade an open hub has no other running greenlet than its current one, its main
greenlet never dies, and no greenlet comes back to life. Unless a panic has broken off what a hub
relied on, ordinary code always runs on the stack of the current greenlet. -/
theorem Run.one_running (hs : w₀.Starts) (h₀ : Run w₀ tr w) (hf : ∀ v ∈ tr, v.OnFacade)
    (hh : h < w.hubs.size) (hc : (w.hub h).closed = false) :
    w.Minds h ∧
      (∀ tr' w', Run w tr' w' → (∀ v ∈ tr', v.OnFacade) → w.Buries w') ∧
      ((∀ v ∈ tr, ¬ v.BreaksOff) → w.Follows h) := by
  have hsound := h₀.sound hs hf
  refine ⟨hsound.minds hh hc, fun tr' w' h₁ hf' r g g' hg hd hg' => ?_, fun hb => ?_⟩
  · have hl : Later w w' := Run.later hs h₀ h₁ fun v hv =>
      (List.mem_append.mp hv).elim (hf' v) (hf v)
    obtain ⟨n, ho⟩ := greenlet?_eq_some_iff.mp hg
    obtain ⟨g₀, hg₀, hlater⟩ := hl.greenlet? (lt_size_of_object? ho) hg'
    obtain rfl : g₀ = g := Option.some.inj (hg₀.symm.trans hg)
    exact hlater.dead hd
  · have hsound' : Sound False w := hsound.mono fun ⟨v, hv, hbr⟩ => hb v hv hbr
    exact hsound'.follows hh hc

instance : DecidablePred BreaksOff := fun w =>
  let broken : Bool := match w.thread.stack with
    | .task (.fail _) :: .task t :: _ => t.isVital
    | _ => false
  decidable_of_iff (broken = true) <| by
    unfold BreaksOff broken
    split
    · rename_i p t below hs
      simp [hs]
    · rename_i hn
      simp only [Bool.false_eq_true, false_iff]
      exact fun ⟨p, t, below, hs, _⟩ => hn p t below hs

/-- A greenlet is about to switch back to the main greenlet that has called it. -/
theorem Run.one_running_swallowing : ∃ tr, Run swallowing tr (swallowing.run 24) ∧
    (∀ v ∈ tr, v.OnFacade ∧ ¬ v.BreaksOff) ∧
    ((swallowing.run 24).hub 0).closed = false ∧ ((swallowing.run 24).hub 0).current = 1 ∧
    ((Control.split ((swallowing.run 24).stackAt 0)).map fun s => s.2.1) = some 0 ∧
    (swallowing.run 24).Minds 0 ∧
    (∀ tr' w', Run (swallowing.run 24) tr' w' → (∀ v ∈ tr', v.OnFacade) →
      (swallowing.run 24).Buries w') ∧
    (swallowing.run 24).Follows 0 := by
  obtain ⟨tr, h, hf⟩ := (@Run.start swallowing).run_all
    (p := fun v => v.OnFacade ∧ ¬ v.BreaksOff) (n := 24) (by decide +kernel)
  rw [List.append_nil] at h
  have hc : ((swallowing.run 24).hub 0).closed = false := by decide +kernel
  obtain ⟨h₁, h₂, h₃⟩ := Run.one_running (.script ..) h (fun v hv => (hf v hv).1) (h := 0)
    (by decide +kernel) hc
  exact ⟨tr, h, hf, hc, by decide +kernel, by decide +kernel, h₁, h₂, h₃ fun v hv => (hf v hv).2⟩

end World

end Switchyard
