import Switchyard.Proofs.Facade.Queues

/-!
# Tasks that last

Some tasks of the engine owe something to their hub. No signal passes them by, so each stays on its
stack until its turn comes, unless a panic breaks it off. Where a fiber runs or a stack is unwound,
such a task lies below.
-/

namespace Switchyard

open World

theorem Item.Stays.mem {s s' : List (Item Task)} (h : Stays s s') {t : Task}
    (ht : ∀ f, t ≠ .frame f) (hm : .task t ∈ s) : .task t ∈ s' := by
  have ho : outline (.task t) = .task t := by
    cases t with
    | frame f => exact absurd rfl (ht f)
    | _ => rfl
  have hm' : .task t ∈ s'.map outline :=
    h.subset (List.mem_map.mpr ⟨.task t, hm, ho⟩)
  obtain ⟨x, hx, he⟩ := List.mem_map.mp hm'
  cases x with
  | base => cases he
  | task u =>
    cases u with
    | frame f =>
      cases he
      exact absurd rfl (ht {})
    | _ => exact he ▸ hx

theorem Item.mem_of_drains {h : HubId} {s : List (Item Task)} (hd : drains h s = true) :
    .task (.drain h) ∈ s := by
  induction s with
  | nil => cases hd
  | cons x s ih =>
    unfold drains at hd
    split at hd
    · rename_i he
      cases he
      simp only [Bool.and_eq_true] at hd
      exact List.mem_cons_of_mem _ (ih hd.2)
    · rename_i he
      cases he
      obtain rfl := beq_iff_eq.mp hd
      exact List.mem_cons_self
    · cases hd

theorem Item.Filed.mem {w : World} {i : Nat} {s : List (Item Task)} (h : Filed w i s) {t : Task}
    (ht : .task t ∈ s) : ∃ below, t.Filed w i below ∧ below ⊆ s := by
  induction s with
  | nil => cases ht
  | cons x s ih =>
    rcases List.mem_cons.mp ht with rfl | ht
    · exact ⟨s, h.1, List.subset_cons_self ..⟩
    · have h' : Filed w i s := by
        cases x with
        | task => exact h.2
        | base => exact h
      obtain ⟨below, hb, hs⟩ := ih h' ht
      exact ⟨below, hb, List.subset_cons_of_subset _ hs⟩

namespace Mode

variable {s : List (Item Task)} {m : Mode} {t : Task}

theorem exists_driveBack (h : of s = some m) (hr : m.ground.isRunning = true) :
    ∃ k r f, .task (.driveBack k r f) ∈ s := by
  induction s generalizing m with
  | nil =>
    obtain rfl := Option.some.inj h
    cases hr
  | cons i s ih =>
    obtain ⟨⟨g, u⟩, h₀, hi⟩ := of_cons h
    by_cases hg : g.isRunning = true
    · obtain ⟨k, r, f, hm⟩ := ih h₀ hg
      exact ⟨k, r, f, List.mem_cons_of_mem _ hm⟩
    cases i with
    | base f forced =>
      rcases of_step_base hi with ⟨-, r, he, -⟩ | ⟨-, g', r, he, rfl⟩
      · cases he
        exact absurd rfl hg
      · cases he
        exact absurd hr hg
    | task t =>
      cases hrole : t.role with
      | back r f =>
        cases t <;> cases hrole
        exact ⟨_, r, f, List.mem_cons_self⟩
      | code | fail =>
        rcases of_step_signal hi (by simp [hrole]) with ⟨rfl, -⟩ | ⟨-, g', r, f, he, rfl⟩
        · exact absurd hr hg
        · cases he
          exact absurd hr hg
      | release =>
        obtain ⟨rfl, -⟩ := of_step_release hi hrole
        exact absurd hr hg
      | released r =>
        obtain ⟨g', he, -, rfl⟩ := of_step_released hi hrole
        cases he
        exact absurd hr hg
      | entry f =>
        rcases of_step_entry hi hrole with ⟨r, he, -⟩ | ⟨g', r, he, rfl⟩ <;> cases he
        · exact absurd rfl hg
        · exact absurd hr hg
      | resumed =>
        rcases of_step_resuming hi hrole with ⟨r, f, he, -⟩ | ⟨g', r, f, he, rfl⟩ <;> cases he
        · exact absurd rfl hg
        · exact absurd hr hg
      | suspend f =>
        obtain ⟨r, he, -⟩ := of_step_suspend hi hrole
        cases he
        exact absurd rfl hg
      | _ =>
        obtain ⟨-, rfl⟩ := of_step_ground hi (by rw [hrole]; rfl)
        cases hr

/-- A stack is unwound only where the hub is drained afterwards. -/
theorem exists_drain {w : World} {n : Nat} (h : of s = some m) (hu : m.unwinding ≠ .none)
    (hf : Item.Filed w n s) : ∃ k, w.Owned k n ∧ .task (.drain k) ∈ s := by
  induction s generalizing m with
  | nil =>
    obtain rfl := Option.some.inj h
    exact absurd rfl hu
  | cons i s ih =>
    obtain ⟨⟨g, u⟩, h₀, hi⟩ := of_cons h
    have hf' : Item.Filed w n s := by
      cases i with
      | task => exact hf.2
      | base => exact hf
    by_cases hu₀ : u = .none
    · subst hu₀
      cases i with
      | base f forced =>
        rcases of_step_base hi with ⟨-, r, -, rfl⟩ | ⟨-, g', r, he, -⟩
        · exact absurd rfl hu
        · cases he
      | task t =>
        simp only [step] at hi
        split at hi
        · rename_i r hr
          cases t <;> cases hr
          exact ⟨_, hf.1.1, List.mem_cons_of_mem _ (Item.mem_of_drains hf.1.2)⟩
        · obtain ⟨g', -, rfl⟩ := Option.map_eq_some_iff.mp hi
          exact absurd rfl hu
    · obtain ⟨k, hk, hm⟩ := ih h₀ hu₀ hf'
      exact ⟨k, hk, List.mem_cons_of_mem _ hm⟩

end Mode

namespace Task

/-- The task owes something to its hub, and no signal but a panic is met above it. -/
def isLasting : Task → Bool
  | drain _ | driveBack .. | driveFinished .. | driveSuspended .. | teardownQueues ..
  | teardownCurrent .. | teardownEnd .. => true
  | _ => false

theorem floor_of_isLasting {t : Task} {c c' : Context} (ht : t.isLasting = true)
    (h : Context.task t c = some c') : c' = .floor := by
  cases t with
  | drain | teardownQueues | teardownCurrent | teardownEnd => exact (Option.some.inj h).symm
  | driveBack | driveFinished | driveSuspended => exact (Context.guard_eq_some_iff.mp h).2.symm
  | _ => cases ht

end Task

namespace World

variable {A : Prop} {w : World} {t : Task} {i : Nat} {c : Context}

/-- A step leaves the stacks below what it is about, unless a fiber gives control back. -/
theorem Sound.stays (hs : Sound A w) (hf : w.OnFacade)
    (hi : ∀ t below, w.thread.stack = .task t :: below → t.isSuspend = true → w.active - 1 ≠ i) :
    Item.Stays ((w.setStack (Item.cut w.thread.stack)).stackAt i) (w.next.stackAt i) := by
  obtain ⟨⟨m, hm, hst⟩, -, hfile⟩ := hs
  have hstill : Still i w.hubs.size (w.setStack (Item.cut w.thread.stack)) w.next := by
    refine .next hst.seated hf hfile hi fun t below k hstk hk => ?_
    have hk' : k < w.hubs.size := by
      rw [hstk] at hfile
      cases t with
      | driveTarget | driveRegister => cases hk; exact hfile.1.1.1
      | teardownCurrent => cases hk; exact hfile.1.1.1.1
      | _ => cases hk
    exact ⟨Nat.ne_of_lt hk', (hst.hubs k hk').current⟩
  unfold stackAt
  cases ht : (w.setStack (Item.cut w.thread.stack)).threads[i]? with
  | none => exact List.nil_suffix
  | some u =>
    obtain ⟨u', hu', hstay⟩ := hstill.stack u ht
    rw [hu']
    exact hstay

theorem Sound.filed_top {below : List (Item Task)} (hs : Sound A w)
    (hstk : w.thread.stack = .task t :: below) : t.Filed w (w.active - 1) below := by
  obtain ⟨-, -, hf⟩ := hs
  rw [hstk] at hf
  exact hf.1

theorem Sound.next_suspend {h : HubId} {f : FiberId} {below : List (Item Task)} (hs : Sound A w)
    (hstk : w.thread.stack = .task (.suspend h f) :: below) :
    ∃ r above rest, below = above ++ .base f false :: rest ∧
      Mode.of rest = some ⟨.back r f, .none⟩ ∧ w.next.stackAt (w.active - 1) = rest := by
  obtain ⟨m₀, m, hi, hp, ho⟩ := hs.poise hstk
  obtain ⟨r, rfl, rfl⟩ := Mode.of_step_suspend hi rfl
  have hnext : w.next = (w.setStack below).suspend h f := by
    rw [World.next, hstk]
    rfl
  have hb : (w.setStack below).thread.stack = below := stack_setStack hs.seated below
  have ha : (w.setStack below).active = w.active := rfl
  rw [hnext, ← ha]
  generalize w.setStack below = v at *
  obtain ⟨k, g, -, -, -, -, -, hf, hsu⟩ :=
    hp.staging.exists_seat hp.covered hp.mode hp.filed (r := r) (f := f) rfl rfl
  obtain ⟨-, -, harm, -⟩ := Ground.places_on.mp (hsu.fiber _ hf).2
  replace harm : (v.fiberD f).armed = true := harm
  obtain ⟨above, rest, hstk', hsplit, hback, -⟩ := Mode.of_on hp.mode
  refine ⟨r, above, rest, hb.symm.trans hstk', hback, ?_⟩
  have hsplit' : Control.split (v.push [.resumed h]).control.stack =
      some (.task (.resumed h) :: above, f, false, rest) := by
    rw [show (v.push [.resumed h]).control.stack = (v.push [.resumed h]).thread.stack from rfl,
      stack_push hp.seated]
    simp [Control.split, hsplit]
  have hctl : (v.push [.resumed h]).control.suspend = some
      { fibers := v.fibers.modify f fun s => { s with phase := .parked (.task (.resumed h) :: above) },
        stack := rest, lost := v.lost } := by
    rw [Control.suspend, hsplit']
    rfl
  unfold World.suspend
  rw [if_pos harm, hctl]
  exact (stack_eq_stackAt _).symm.trans (stack_setControl hp.seated _)

/-- A task that lasts stays where it is until it comes to the top, unless a fiber that it stands on
gives control back. -/
theorem Sound.lasts (hs : Sound A w) (hc : w.Stands c) (hf : w.OnFacade) (hb : ¬ w.BreaksOff)
    (ht : t.isLasting = true) (hm : .task t ∈ w.stackAt i)
    (hi : ∀ u below, w.thread.stack = .task u :: below → u.isSuspend = true → w.active - 1 ≠ i) :
    i = w.active - 1 ∧ (∃ below, w.thread.stack = .task t :: below) ∨
      .task t ∈ w.next.stackAt i := by
  have hframe : ∀ f, t ≠ .frame f := by rintro f rfl; cases ht
  suffices h : i = w.active - 1 ∧ (∃ below, w.thread.stack = .task t :: below) ∨
      .task t ∈ (w.setStack (Item.cut w.thread.stack)).stackAt i from
    h.imp_right ((hs.stays hf hi).mem hframe)
  rw [stackAt_setStack hs.seated]
  split
  · rename_i he
    subst he
    rw [← stack_eq_stackAt] at hm
    have hctx := hc.context
    obtain ⟨m, hmode, -⟩ := hs.staging
    cases hstk : w.thread.stack with
    | nil => simp [hstk] at hm
    | cons x below =>
      rw [hstk] at hm hctx hmode
      rcases List.mem_cons.mp hm with rfl | hbelow
      · exact .inl ⟨rfl, below, rfl⟩
      clear hm
      cases x with
      | base => exact .inr hbelow
      | task u =>
        by_cases hσ : u.isSignal = true
        · cases below with
          | nil => cases hbelow
          | cons y rest =>
            rcases List.mem_cons.mp hbelow with rfl | hrest
            · -- a signal stands right above the task
              exfalso
              obtain ⟨c₁, hc₁, hu⟩ := Context.of_cons hctx
              obtain ⟨c₂, -, htc⟩ := Context.of_cons hc₁
              obtain rfl := Task.floor_of_isLasting ht htc
              cases u with
              | answer | leave | result | hand => cases hu
              | fail p =>
                by_cases hv : t.isVital = true
                · exact hb ⟨p, t, rest, hstk, hv⟩
                · obtain ⟨m₁, hm₁, hstep⟩ := Mode.of_cons hmode
                  obtain ⟨m₂, -, hback⟩ := Mode.of_cons hm₁
                  cases t with
                  | driveBack k r f =>
                    obtain ⟨-, rfl⟩ := Mode.of_step_ground hback rfl
                    cases hstep
                  | drain | driveFinished | driveSuspended | teardownQueues | teardownCurrent
                  | teardownEnd => exact hv rfl
                  | _ => cases ht
              | _ => cases hσ
            · exact .inr (by simpa [Item.cut, hσ] using hrest)
        · exact .inr (by simpa [Item.cut, hσ] using hbelow)
  · exact .inr hm

end World

end Switchyard
