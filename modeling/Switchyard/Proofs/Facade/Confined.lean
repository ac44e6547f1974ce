import Switchyard.Proofs.Facade.Run
import Switchyard.Proofs.Facade.Still

/-!
# Code that may not switch

Two kinds of code are kept from switching: what runs on a stack that is unwound, and what the driver
calls on the original stack. Such code runs above an item of the control stack that tells so. Until
the control stack has come down to that item again, all of its switches are refused and no greenlet
of the thread gets control.
-/

namespace Switchyard

open World

namespace Item

/-- Code above such an item may not switch: a stack is unwound, or the driver is at work. -/
def confines : Item Task → Bool
  | .base _ forced => forced
  | .task t =>
    match t.role with
    | .released _ | .driving | .ready .. | .starting .. | .arrived => true
    | _ => false

/-- The item that has `n` others below it keeps what is above it from switching. -/
def confinedAt (n : Nat) : List (Item Task) → Bool
  | [] => false
  | x :: s => if s.length = n then x.confines else confinedAt n s

variable {n : Nat} {s s' : List (Item Task)}

theorem confinedAt_append (top : List (Item Task)) (h : confinedAt n s = true) :
    confinedAt n (top ++ s) = true := by
  have hn {s : List (Item Task)} (h : confinedAt n s = true) : n < s.length := by
    induction s with
    | nil => cases h
    | cons x s ih =>
      unfold confinedAt at h
      split at h
      · simp [← ‹s.length = n›]
      · exact Nat.lt_succ_of_lt (ih h)
  induction top with
  | nil => exact h
  | cons x top ih =>
    rw [List.cons_append, confinedAt, if_neg (Nat.ne_of_gt (hn ih))]
    exact ih

theorem confinedAt_map_outline (s : List (Item Task)) :
    confinedAt n (s.map outline) = confinedAt n s := by
  have hx (x : Item Task) : x.outline.confines = x.confines := by
    cases x with
    | base => rfl
    | task t => cases t <;> rfl
  induction s with
  | nil => rfl
  | cons x s ih => simp [confinedAt, ih, hx]

theorem Stays.confinedAt (h : Stays s s') (hn : confinedAt n s = true) :
    confinedAt n s' = true := by
  obtain ⟨top, ht⟩ := h
  rw [← confinedAt_map_outline, ← ht]
  exact confinedAt_append top (by rwa [confinedAt_map_outline])

theorem confinedAt_tail (h : confinedAt n s.tail = true) : confinedAt n s = true := by
  cases s with
  | nil => exact h
  | cons x s => exact confinedAt_append [x] h

theorem confinedAt_of_cut {x : Item Task} (h : confinedAt n (cut (x :: s)) = true) :
    confinedAt n s = true := by
  cases x with
  | base => exact h
  | task t =>
    unfold cut at h
    dsimp only at h
    split at h
    · exact confinedAt_tail h
    · exact h

end Item

namespace Mode

variable {m m' : Mode} {i : Item Task} {s : List (Item Task)}

def IsConfined (m : Mode) : Prop :=
  m.unwinding ≠ .none ∨ m.ground.isCalm = true ∧ m.ground.isDriving = true

theorem isConfined_of_step (hi : i.confines = true) (h : step i m = some m') : m'.IsConfined := by
  cases i with
  | base f forced =>
    obtain rfl : forced = true := hi
    rcases of_step_base h with ⟨hf, -⟩ | ⟨-, g, r, rfl, rfl⟩
    · cases hf
    · exact .inl nofun
  | task t =>
    unfold Item.confines at hi
    dsimp only at hi
    split at hi
    · rename_i r hr
      obtain ⟨g, -, -, rfl⟩ := of_step_released h hr
      exact .inl nofun
    all_goals rename_i hr
    iterate 4
      obtain ⟨-, rfl⟩ := of_step_ground h (by rw [hr]; rfl)
      exact .inr ⟨rfl, rfl⟩
    cases hi

/-- Whatever comes on top, the thread may not switch. -/
theorem IsConfined.step (hm : m.IsConfined) (h : step i m = some m') : m'.IsConfined := by
  obtain ⟨g, u⟩ := m
  cases i with
  | base f forced =>
    rcases of_step_base h with ⟨-, r, he, -⟩ | ⟨-, g', r, -, rfl⟩
    · cases he
      rcases hm with hm | ⟨hm, -⟩
      · exact absurd rfl hm
      · cases hm
    · exact .inl (by simp)
  | task t =>
    cases u with
    | none =>
      obtain ⟨hc, hd⟩ := hm.resolve_left fun hn => hn rfl
      cases hr : t.role with
      | code =>
        rw [step_code (isOpen_of_isCalm hc) (.inl hr)] at h
        exact Option.some.inj h ▸ hm
      | fail =>
        rw [step_code (isOpen_of_isCalm hc) (.inr hr)] at h
        exact Option.some.inj h ▸ hm
      | release =>
        obtain ⟨rfl, -⟩ := of_step_release h hr
        exact hm
      | released r =>
        obtain ⟨g', -, -, rfl⟩ := of_step_released h hr
        exact .inl (by simp)
      | entry f =>
        rcases of_step_entry h hr with ⟨r, he, -⟩ | ⟨g', r, he, -⟩ <;> cases he
        cases hc
      | resumed =>
        rcases of_step_resuming h hr with ⟨r, f, he, -⟩ | ⟨g', r, f, he, -⟩ <;> cases he
        cases hc
      | suspend f =>
        obtain ⟨r, he, -⟩ := of_step_suspend h hr
        cases he
        cases hc
      | _ =>
        obtain ⟨he, -⟩ := of_step_ground h (by rw [hr]; rfl)
        cases he
        cases hd
    | bare r =>
      simp only [Mode.step] at h
      split at h
      · exact Option.some.inj h ▸ .inl (by simp)
      · cases h
    | off r f x =>
      obtain ⟨y, -, rfl⟩ := Option.map_eq_some_iff.mp h
      exact .inl (by simp)

theorem isConfined_of {n : Nat} (h : of s = some m) (hn : Item.confinedAt n s = true) :
    m.IsConfined := by
  induction s generalizing m with
  | nil => cases hn
  | cons x s ih =>
    obtain ⟨m₀, h₀, hx⟩ := of_cons h
    unfold Item.confinedAt at hn
    split at hn
    · exact isConfined_of_step hn hx
    · exact (ih h₀ hn).step hx

end Mode

namespace World

variable {A : Prop} {w₀ w w' : World} {h : HubId} {i n : Nat} {tr tr₀ : List World}

theorem Sound.place (hs : Sound A w) (ho : w.Owned h i) : ∃ m, Mode.of (w.stackAt i) = some m ∧
    Item.Filed w i (w.stackAt i) ∧ w.Staged A h m (Item.edge (w.stackAt i)) := by
  obtain ⟨⟨m, hm, hst⟩, -, hf⟩ := hs
  have hpos := hst.seated.1
  by_cases hi : i = w.active - 1
  · subst hi
    have hact : (w.hub h).thread = w.active := ho.2.trans (Nat.sub_add_cancel hpos)
    rw [stack_eq_stackAt] at hm hf hst
    exact ⟨m, hm, hf, hst.staged h ho.1 m _ (by rw [Shows, if_pos hact])⟩
  · obtain ⟨⟨m', hm'⟩, hf'⟩ := hst.elsewhere i hi
    refine ⟨m', hm', hf', hst.staged h ho.1 m' _ ?_⟩
    have hne : (w.hub h).thread ≠ w.active := by
      rw [ho.2]
      intro he
      exact hi (by rw [← he]; rfl)
    rw [Shows, if_neg hne, ho.2]
    exact ⟨hm', rfl⟩

/-- The hub of a thread that may not switch is open, refuses all switches and holds nothing that a
greenlet is to receive. -/
theorem Sound.busy (hs : Sound A w) (ho : w.Owned h i)
    (hn : Item.confinedAt n (w.stackAt i) = true) :
    (w.hub h).closed = false ∧ (w.hub h).isBusy = true ∧ (w.hub h).outgoing = none := by
  obtain ⟨m, hm, -, hst⟩ := hs.place ho
  have hc := Mode.isConfined_of hm hn
  have hcalm : m.ground.isCalm = true := by
    rcases hc with hu | ⟨hc, -⟩
    · exact Mode.isCalm_of_unwinding hm hu
    · exact hc
  have hopen : (w.hub h).closed = false := by
    by_contra hcl
    obtain rfl := hst.shut (by simpa using hcl)
    rcases hc with hu | ⟨-, hd⟩
    · exact hu rfl
    · cases hd
  have hfine := hst.fine hopen
  have hrun : m.ground.isRunning = false ∧ m.ground.isPosting = false := by
    generalize m.ground = g at hcalm
    cases g <;> first | exact ⟨rfl, rfl⟩ | cases hcalm
  refine ⟨hopen, ?_, hfine.outgoing hrun.2⟩
  rcases hc with hu | ⟨-, hd⟩
  · have hrel : (w.hub h).releasing = true := hfine.releasing hu
    simp [Hub.isBusy, hrel]
  · have hdr : (w.hub h).driving = true := hfine.driving.trans hd
    have hrf : (w.hub h).runningFiber = false := hfine.running.trans hrun.1
    simp [Hub.isBusy, hdr, hrf]

theorem Sound.still (hs : Sound A w) (ho : w.Owned h i) (hf : w.OnFacade)
    (hn : w.active - 1 = i → Item.confinedAt n (Item.cut (w.stackAt i)) = true) :
    Still i h (w.setStack (Item.cut w.thread.stack)) w.next := by
  obtain ⟨⟨m, hm, hst⟩, hc, hfile⟩ := hs
  have hconf {t : Task} {rest : List (Item Task)} (ht : w.thread.stack = .task t :: rest)
      (hi : w.active - 1 = i) : ∃ m₀ m, m₀.IsConfined ∧ Mode.step (.task t) m₀ = some m := by
    have hn' := hn hi
    rw [← hi, ← stack_eq_stackAt, ht] at hn'
    rw [ht] at hm
    obtain ⟨m₀, h₀, hstep⟩ := Mode.of_cons hm
    exact ⟨m₀, m, Mode.isConfined_of h₀ (Item.confinedAt_of_cut hn'), hstep⟩
  refine Still.next hst.seated hf hfile ?_ ?_
  · intro t rest ht hsus hi
    obtain ⟨m₀, m, hk, hstep⟩ := hconf ht hi
    cases t with
    | suspend k f =>
      obtain ⟨r, rfl, -⟩ := Mode.of_step_suspend hstep rfl
      rcases hk with hk | ⟨hk, -⟩
      · exact hk rfl
      · cases hk
    | _ => cases hsus
  · intro t rest k ht hmv
    have hground : ∃ g, t.role.ground? = some g := by
      cases t with
      | driveTarget | driveRegister | teardownCurrent => exact ⟨_, rfl⟩
      | _ => cases hmv
    have hok : w.Owned k (w.active - 1) := by
      rw [ht] at hfile
      cases t with
      | driveTarget | driveRegister => cases hmv; exact hfile.1.1
      | teardownCurrent => cases hmv; exact hfile.1.1.1
      | _ => cases hmv
    refine ⟨?_, (hst.hubs k hok.1).current⟩
    rintro rfl
    have hi : w.active - 1 = i := Nat.succ.inj (hok.2.symm.trans ho.2)
    obtain ⟨m₀, m, hk, hstep⟩ := hconf ht hi
    obtain ⟨g, hg⟩ := hground
    obtain ⟨rfl, -⟩ := Mode.of_step_ground hstep hg
    rcases hk with hk | ⟨-, hk⟩
    · exact hk rfl
    · cases hk

/-- A switch that is about to be made comes to nothing, and the switcher is told why. -/
def Refuses (w : World) : Prop :=
  ∀ h target p below, w.thread.stack = .task (.switch h target p) :: below →
    w.next = ((w.setStack below).raise .switchDuringRelease).push
      (Task.dropPayload p ++ [.answer (.error .switchDuringRelease)])

theorem Sound.refuses (hs : Sound A w) (ho : w.Owned h (w.active - 1))
    (hn : Item.confinedAt n w.thread.stack = true) : w.Refuses := by
  intro k target p below ht
  rw [stack_eq_stackAt] at hn
  obtain ⟨hopen, hbusy, -⟩ := hs.busy ho hn
  obtain ⟨⟨m, hm, hst⟩, -, hfile⟩ := hs
  rw [ht] at hfile
  obtain rfl : k = h := hst.owned_unique hfile.1.1 ho
  have herr : (w.setStack below).switchError? k target = some .switchDuringRelease := by
    have hk : (w.setStack below).hub k = w.hub k := rfl
    simp [switchError?, hk, hopen, hbusy]
  have hnext : w.next = (w.setStack below).switch k target p := by
    rw [World.next, ht]
    rfl
  rw [hnext, World.switch, herr]

theorem Owned.unmoved (ho : w.Owned h i) (hu : Unmoved h w w') : w'.Owned h i := by
  obtain ⟨s', hs', ht, -⟩ := hu.hub _ (Array.getElem?_eq_getElem ho.1)
  refine ⟨hu.size ho.1, ?_⟩
  rw [hub_of_some hs', ht, ← hub_of_some (Array.getElem?_eq_getElem ho.1)]
  exact ho.2

theorem Sound.confinedAt_next (hs : Sound A w) (ho : w.Owned h i) (hf : w.OnFacade)
    (hn : Item.confinedAt n (w.stackAt i) = true)
    (hw : w.active - 1 = i → Item.confinedAt n (Item.cut (w.stackAt i)) = true) :
    Item.confinedAt n (w.next.stackAt i) = true := by
  have hstill := hs.still ho hf hw
  have hcut : Item.confinedAt n ((w.setStack (Item.cut w.thread.stack)).stackAt i) = true := by
    rw [stackAt_setStack hs.seated]
    split
    · subst_vars
      rw [stack_eq_stackAt]
      exact hw rfl
    · exact hn
  unfold stackAt at hcut ⊢
  cases ht : (w.setStack (Item.cut w.thread.stack)).threads[i]? with
  | none =>
    rw [ht] at hcut
    cases hcut
  | some t =>
    obtain ⟨t', ht', hst⟩ := hstill.stack t ht
    rw [ht] at hcut
    rw [ht']
    exact hst.confinedAt hcut

/-- As long as a thread runs code above an item that keeps it from switching, its switches are
refused, no greenlet of its hub gets control or anything to receive, and the item stays. -/
theorem Run.confined (hs : w₀.Starts) (h₀ : Run w₀ tr₀ w) (h₁ : Run w tr w')
    (hf : ∀ v ∈ tr ++ tr₀, v.OnFacade) (ho : w.Owned h i)
    (hn : Item.confinedAt n (w.stackAt i) = true)
    (hw : ∀ v ∈ tr, v.active - 1 = i → Item.confinedAt n (Item.cut (v.stackAt i)) = true) :
    Item.confinedAt n (w'.stackAt i) = true ∧ Unmoved h w w' ∧ (w'.hub h).isBusy = true ∧
      (w'.hub h).outgoing = none ∧ ∀ v ∈ tr, v.active - 1 = i → v.Refuses := by
  suffices h : Item.confinedAt n (w'.stackAt i) = true ∧ Unmoved h w w' ∧
      ∀ v ∈ tr, v.active - 1 = i → v.Refuses by
    obtain ⟨hn', hu, hr⟩ := h
    have hs' := (h₀.append h₁).sound hs hf
    obtain ⟨-, hbusy, hout⟩ := hs'.busy (ho.unmoved hu) hn'
    exact ⟨hn', hu, hbusy, hout, hr⟩
  induction h₁ with
  | start => exact ⟨hn, .of_eq rfl rfl, nofun⟩
  | @step tr v h₁ hr ih =>
    obtain ⟨hn', hu, hre⟩ := ih (fun u hu => hf u (List.mem_cons_of_mem _ hu))
      fun u hu => hw u (List.mem_cons_of_mem _ hu)
    have hs' := (h₀.append h₁).sound hs fun u hu => hf u (List.mem_cons_of_mem _ hu)
    have hfv := hf v List.mem_cons_self
    have hwv := hw v List.mem_cons_self
    have ho' := ho.unmoved hu
    refine ⟨hs'.confinedAt_next ho' hfv hn' hwv, ?_, fun u hmem hi => ?_⟩
    · have hcut : Unmoved h v (v.setStack (Item.cut v.thread.stack)) := .of_eq rfl rfl
      exact (hu.trans hcut).trans (hs'.still ho' hfv hwv).toUnmoved
    · rcases List.mem_cons.mp hmem with rfl | hmem
      · subst hi
        exact hs'.refuses ho' (by rw [stack_eq_stackAt]; exact hn')
      · exact hre u hmem hi
  | yield h₁ _ _ ih =>
    obtain ⟨hn', hu, hre⟩ := ih hf hw
    exact ⟨hn', hu.trans (.of_eq rfl rfl), hre⟩

/-- A suspended greenlet is dropped. It catches the panic that unwinds it, throws at another
greenlet and returns; its destructor switches to the other one. -/
def swallowing : World :=
  Script.start .empty
    [("p", [.canary (.mk "c" [.switch "q" (.built [] []) none none]),
        .nest (.attemptPanic false) [.switch "@main" (.built [] []) none none],
        .throw "q" .exit none none, .ret (.built [] [])]), ("q", [])]
    [.create "p" "p" [] [] none none, .create "q" "q" [] [] none none,
      .switch "p" (.built [] []) none none, .drop "p"] 500

theorem Run.confined_swallowing : ∃ tr, Run (swallowing.run 49) tr ((swallowing.run 49).run 32) ∧
    Item.confinedAt 17 (((swallowing.run 49).run 32).stackAt 0) = true ∧
      Unmoved 0 (swallowing.run 49) ((swallowing.run 49).run 32) ∧
      (((swallowing.run 49).run 32).hub 0).isBusy = true ∧
      (((swallowing.run 49).run 32).hub 0).outgoing = none ∧
      ∀ v ∈ tr, v.active - 1 = 0 → v.Refuses := by
  obtain ⟨tr₀, h₀, hf₀⟩ := (@Run.start swallowing).run_all (p := World.OnFacade) (n := 49)
    (by decide +kernel)
  obtain ⟨tr, h₁, hall⟩ := (@Run.start (swallowing.run 49)).run_all (n := 32)
    (p := fun v => v.OnFacade ∧ (v.active - 1 = 0 →
      Item.confinedAt 17 (Item.cut (v.stackAt 0)) = true)) (by decide +kernel)
  rw [List.append_nil] at h₀ h₁
  have hf : ∀ v ∈ tr ++ tr₀, v.OnFacade := fun v hv =>
    (List.mem_append.mp hv).elim (fun h => (hall v h).1) (hf₀ v)
  exact ⟨tr, h₁, Run.confined (.script ..) h₀ h₁ hf ⟨by decide +kernel, by decide +kernel⟩
    (by decide +kernel) fun v hv => (hall v hv).2⟩

theorem Sound.runningFiber_iff {t : Task} {below : List (Item Task)} (hs : Sound A w)
    (ho : w.Owned h (w.active - 1)) (hc : (w.hub h).closed = false)
    (hstk : w.thread.stack = .task t :: below) (ht : t.role = .code) :
    (w.hub h).runningFiber = true ↔
      ∃ above f rest, Control.split w.thread.stack = some (above, f, false, rest) := by
  obtain ⟨m, hm, -, hst⟩ := hs.place ho
  rw [← stack_eq_stackAt] at hm
  have hrun : (w.hub h).runningFiber = m.ground.isRunning := (hst.fine hc).running
  obtain ⟨m₀, -, hi⟩ := Mode.of_cons (hstk ▸ hm)
  obtain ⟨rfl, hopen⟩ := Mode.of_step_code hi ht
  rw [hrun]
  exact Mode.isRunning_iff hm hopen

/-- Wherever a script goes on in a run on the facade, the flag of its hub is set exactly when it is
on the stack of a greenlet that is not being unwound. -/
theorem Run.running_iff {steps : List Script.Step} {below : List (Item Task)} (hs : w₀.Starts)
    (h₀ : Run w₀ tr w) (hf : ∀ v ∈ tr, v.OnFacade) (hh : w.thread.home = .full h)
    (hc : (w.hub h).closed = false) (hstk : w.thread.stack = .task (.steps steps) :: below) :
    (w.hub h).runningFiber = true ↔
      ∃ above f rest, Control.split w.thread.stack = some (above, f, false, rest) := by
  have hsound := h₀.sound hs hf
  obtain ⟨m, hst⟩ := hsound.staging
  have ho : w.Owned h (w.active - 1) :=
    hst.2.homes _ h ((homeAt_active hst.2.seated).trans hh)
  exact hsound.runningFiber_iff ho hc hstk rfl

/-- The destructor of a greenlet that is dropped runs on its stack. The flag is not set. -/
theorem Run.running_iff_swallowing : ∃ tr steps below, Run swallowing tr (swallowing.run 57) ∧
    (∀ v ∈ tr, v.OnFacade) ∧ (swallowing.run 57).thread.home = .full 0 ∧
    ((swallowing.run 57).hub 0).closed = false ∧
    (swallowing.run 57).thread.stack = .task (.steps steps) :: below ∧
    ((swallowing.run 57).hub 0).runningFiber = false ∧
    ((Control.split (swallowing.run 57).thread.stack).map fun s => (s.2.1, s.2.2.1)) =
      some (0, true) ∧
    (((swallowing.run 57).hub 0).runningFiber = true ↔ ∃ above f rest,
      Control.split (swallowing.run 57).thread.stack = some (above, f, false, rest)) := by
  obtain ⟨tr, h, hf⟩ := (@Run.start swallowing).run_all (p := World.OnFacade) (n := 57)
    (by decide +kernel)
  rw [List.append_nil] at h
  have hg : (swallowing.run 57).thread.home.get? = some 0 := by decide +kernel
  have hh : (swallowing.run 57).thread.home = .full 0 := by
    generalize (swallowing.run 57).thread.home = s at hg
    cases s with
    | full => rw [Option.some.inj hg]
    | _ => cases hg
  have hc : ((swallowing.run 57).hub 0).closed = false := by decide +kernel
  have hstk : ∃ steps below, (swallowing.run 57).thread.stack = .task (.steps steps) :: below :=
    ⟨_, _, rfl⟩
  obtain ⟨steps, below, hstk⟩ := hstk
  exact ⟨tr, steps, below, h, hf, hh, hc, hstk, by decide +kernel, by decide +kernel,
    Run.running_iff (.script ..) h hf hh hc hstk⟩

end World

end Switchyard
