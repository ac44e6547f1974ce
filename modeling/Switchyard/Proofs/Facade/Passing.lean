import Switchyard.Proofs.Facade.Releases
import Switchyard.Proofs.Signals.Step

/-!
# Signals and panics

A signal cleans up the tasks that it does not concern. What a task does for its hub is undone in
the same way, except that a panic that leaves the driver leaves the current greenlet as it is.
-/

namespace Switchyard

open World

namespace Task

/-- The driver is at work. A panic that gets here leaves it. -/
def isDriven (t : Task) : Bool :=
  match t.role with
  | .driving | .ready .. | .starting .. => true
  | _ => false

/-- The task ends the driving of its hub, now or later. -/
def isDriver (t : Task) : Bool :=
  match t.role with
  | .driving | .ready .. | .starting .. | .arrived | .back .. => true
  | _ => false

/-- A hub relies on the task: stacks are released, the hub is shut, or the driver is at work. -/
def isVital (t : Task) : Bool :=
  match t with
  | .released .. | .drain _ | .teardownQueues .. | .teardownCurrent .. | .teardownEnd .. => true
  | t => t.isDriven

theorem isVital_of_isDriven {t : Task} (h : t.isDriven = true) : t.isVital = true := by
  cases t <;> first | rfl | exact h

theorem isDriver_of_isDriven {t : Task} (h : t.isDriven = true) : t.isDriver = true := by
  cases t <;> first | rfl | cases h

theorem all_isFree_dropPayload (p : Payload) : (dropPayload p).all isFree = true :=
  all_isFree_of_isPlain (all_isPlain_dropPayload p)

theorem all_isFree_dropArgs (a : Args Obj) : (dropArgs a).all isFree = true :=
  all_isFree_of_isPlain (all_isPlain_dropArgs a)

theorem all_isFree_dropRun (run : RunFn) : (dropRun run).all isFree = true :=
  all_isFree_of_isPlain (all_isPlain_dropRun run)

theorem all_isFree_dropOutgoing (o : Option Outgoing) : (dropOutgoing o).all isFree = true := by
  rcases o with _ | (⟨u, p⟩ | p)
  · rfl
  · rw [dropOutgoing, List.all_cons, all_isFree_dropPayload]
    rfl
  · exact all_isFree_dropPayload p

theorem all_isFree_dropFlow (f : Flow) : (dropFlow f).all isFree = true := by
  cases f with
  | ret a => exact all_isFree_dropArgs a
  | _ => rfl

theorem all_isFree_dropLocals (ls : List Local) :
    (ls.filterMap dropLocal).all isFree = true := by
  simp only [List.all_eq_true, List.mem_filterMap]
  rintro t ⟨l, -, hl⟩
  cases l with
  | object o => cases o <;> cases hl; rfl
  | _ => cases hl; rfl

theorem cleanup_driver {t : Task} (h : t.isDriver = true) :
    ∃ us i vs, t.cleanup = us ++ endDriving i :: vs ∧ us.all isFree = true ∧ vs.all isFree = true ∧
      ∀ (w : World) k below, t.Filed w k below → w.Owned i k := by
  cases t with
  | driveTarget i t p | driveKilled i t p | driveMain i t p =>
    exact ⟨[], i, dropPayload p ++ [drop t], rfl, rfl,
      by rw [List.all_append, all_isFree_dropPayload]; rfl, fun _ _ _ hf => hf.1⟩
  | driveRefused i t e => exact ⟨[], i, [drop t], rfl, rfl, rfl, fun _ _ _ hf => hf.1⟩
  | driveRegister i t f | driveResume i t f | driveBack i t f =>
    exact ⟨[unshare f], i, [drop t], rfl, rfl, rfl, fun _ _ _ hf => hf.1⟩
  | driveFinished i t out | driveSuspended i t out =>
    exact ⟨dropOutgoing out, i, [drop t], rfl, all_isFree_dropOutgoing out, rfl,
      fun _ _ _ hf => hf.1⟩
  | endDriving i => exact ⟨[], i, [], rfl, rfl, rfl, fun _ _ _ hf => hf⟩
  | _ => cases h

theorem cleanup_free {t : Task} (h : t.isDriver = false) : t.cleanup.all isFree = true ∨
      (∃ i, t = leaveHub i) ∨ ∃ i, t = dropHubFields i := by
  cases t with
  | leaveHub i => exact .inr (.inl ⟨i, rfl⟩)
  | dropHubFields i => exact .inr (.inr ⟨i, rfl⟩)
  | driveMain | endDriving | driveTarget | driveKilled | driveRefused | driveRegister
  | driveResume | driveBack | driveFinished | driveSuspended => cases h
  | answer outcome =>
    cases outcome with
    | ok a => exact .inl (all_isFree_dropArgs a)
    | error e => exact .inl rfl
  | build acc positional keywords purpose =>
    refine .inl ?_
    cases purpose <;> simp [cleanup, all_isFree_dropArgs, isFree, isPlain]
  | rally r => exact .inl (all_isFree_of_isPlain (Effect.all_isPlain_drops r))
  | frame f =>
    refine .inl ?_
    rw [cleanup, List.all_append, all_isFree_dropLocals, all_isFree_dropArgs]
    rfl
  | hand last flow =>
    refine .inl ?_
    rw [cleanup, List.all_append, all_isFree_dropFlow, all_isFree_dropArgs]
    rfl
  | runBody run args =>
    refine .inl ?_
    rw [cleanup, List.all_append, all_isFree_dropRun, all_isFree_dropArgs]
    rfl
  | drive i t p =>
    refine .inl ?_
    rw [cleanup, List.all_append, all_isFree_dropPayload]
    rfl
  | switch i t p | deliver p | result p => exact .inl (all_isFree_dropPayload p)
  | bodyEnd run => exact .inl (all_isFree_dropRun run)
  | leave flow => exact .inl (all_isFree_dropFlow flow)
  | _ => exact .inl rfl

end Task

namespace Mode

variable {m m' : Mode} {t : Task} {s : List (Item Task)}

theorem resumed_of_off {g : Ground} {r : Ref} {f : FiberId}
    (h : of s = some ⟨g, .off r f .resumed⟩) : ∃ i rest, s = .task (.resumed i) :: rest := by
  cases s with
  | nil => cases h
  | cons i s =>
    obtain ⟨m₀, -, hi⟩ := of_cons h
    cases i with
    | task t =>
      have hr := (of_step_resumed hi).1
      cases t <;> cases hr
      exact ⟨_, s, rfl⟩
    | base i forced =>
      rcases of_step_base hi with ⟨-, r, -, h⟩ | ⟨-, g', r', -, h⟩ <;> cases h

theorem isOpen_of_isCalm {g : Ground} (h : g.isCalm = true) : (Mode.mk g .none).isOpen = true := by
  cases g <;> first | rfl | cases h

/-- What is left of a task that a signal passes, and the signal, are at home where the task
stood. -/
theorem of_pass {σ : Task} {m₀ m₁ : Mode} (h₁ : of s = some m₁)
    (ht : step (.task t) m₁ = some m₀) (hσ : step (.task σ) m₀ = some m)
    (hr : σ.role = .code ∨ σ.role = .fail)
    (hres : σ.role = .fail ∨ ∀ g r f, m₁ ≠ ⟨g, .off r f .resumed⟩)
    (he : ∀ f, t.role ≠ .entry f) :
    ∃ m', of ((t.cleanup ++ [σ]).map .task ++ s) = some m' ∧ (m' = m ∨
      (t.isDriven = true ∧ m.unwinding = .none ∧ m.ground.isCalm = true ∧
        m.ground.isDriving = true ∧ m' = ⟨.arrived, .none⟩) ∨
      ∃ g r, t.role = .released r ∧ m = ⟨g, .bare r⟩ ∧ m' = ⟨g, .none⟩) := by
  have hsignal (hm : m₁.isOpen = true) : of (.task σ :: s) = some m₁ :=
    of_cons_of h₁ (step_code hm hr)
  have hfree {ts : List Task} (hm : m₁.isOpen = true) (hc : ts.all Task.isFree = true) :
      of ((ts ++ [σ]).map .task ++ s) = some m₁ := by
    rw [List.map_append, List.append_assoc]
    exact of_push hm (fun u hu => .inl (Task.role_of_isFree (List.all_eq_true.mp hc u hu)))
      (hsignal hm)
  have hclean (hm : m₁.isOpen = true) (hd : t.isDriver = false)
      (hi : t.role = .closing → m₁ = .idle) :
      of ((t.cleanup ++ [σ]).map .task ++ s) = some m₁ := by
    rcases Task.cleanup_free hd with hc | ⟨i, rfl⟩ | ⟨i, rfl⟩
    · exact hfree hm hc
    · exact of_cons_of (hsignal hm) (step_code hm (.inl rfl))
    · refine of_cons_of (hsignal hm) ?_
      rw [hi rfl]
      rfl
  have hdriver {g : Ground} (hd : t.isDriver = true)
      (hg : t.role.ground? = some g) : m₀ = ⟨g, .none⟩ ∧
        of ((t.cleanup ++ [σ]).map .task ++ s) = some ⟨.arrived, .none⟩ := by
    obtain ⟨rfl, h₀⟩ := of_step_ground ht hg
    obtain ⟨us, i, vs, hcl, hus, hvs, -⟩ := Task.cleanup_driver hd
    refine ⟨h₀, ?_⟩
    rw [hcl, List.append_assoc, List.map_append, List.append_assoc]
    refine of_push rfl (fun u hu => .inl (Task.role_of_isFree (List.all_eq_true.mp hus u hu))) ?_
    exact of_cons_of (hfree rfl hvs) rfl
  have hkeep (ho : m₀.isOpen = true) : m = m₀ := by
    rcases of_step_signal hσ hr with ⟨rfl, -⟩ | ⟨-, g, r, f, rfl, -⟩
    · rfl
    · cases ho
  cases hrole : t.role with
  | code =>
    obtain ⟨rfl, ho⟩ := of_step_code ht hrole
    exact ⟨_, hclean ho (by simp [Task.isDriver, hrole]) (by simp [hrole]),
      .inl (hkeep ho).symm⟩
  | fail =>
    rcases of_step_signal ht (.inr hrole) with ⟨rfl, ho⟩ | ⟨-, g, r, f, rfl, rfl⟩
    · exact ⟨_, hclean ho (by simp [Task.isDriver, hrole]) (by simp [hrole]),
        .inl (hkeep ho).symm⟩
    · have hfail : σ.role = .fail := hres.resolve_right fun h => h g r f rfl
      refine ⟨⟨g, .off r f .code⟩, ?_, .inl (hkeep rfl).symm⟩
      have hcl : t.cleanup = [] := by cases t <;> first | rfl | cases hrole
      rw [hcl]
      exact of_cons_of h₁ (by simp [step, Spot.unwind, hfail])
  | release =>
    obtain ⟨rfl, hu, hcalm⟩ := of_step_release ht hrole
    obtain ⟨g, u⟩ := m₀
    obtain rfl : u = .none := hu
    have ho := isOpen_of_isCalm hcalm
    exact ⟨_, hclean ho (by simp [Task.isDriver, hrole]) (by simp [hrole]),
      .inl (hkeep ho).symm⟩
  | closing =>
    obtain ⟨rfl, rfl⟩ := of_step_ground ht (by rw [hrole]; rfl)
    exact ⟨_, hclean rfl (by simp [Task.isDriver, hrole]) fun _ => rfl,
      .inl (hkeep rfl).symm⟩
  | driving | ready _ _ | starting _ _ =>
    obtain ⟨rfl, h⟩ := hdriver (by simp [Task.isDriver, hrole]) (by rw [hrole]; rfl)
    obtain rfl := hkeep rfl
    exact ⟨_, h, .inr (.inl ⟨by simp [Task.isDriven, hrole], rfl, rfl, rfl, rfl⟩)⟩
  | arrived =>
    obtain ⟨rfl, h⟩ := hdriver (by simp [Task.isDriver, hrole]) (by rw [hrole]; rfl)
    exact ⟨_, h, .inl (hkeep rfl).symm⟩
  | asked | back _ _ =>
    obtain ⟨-, rfl⟩ := of_step_ground ht (by rw [hrole]; rfl)
    rcases of_step_signal hσ hr with ⟨-, ho⟩ | ⟨-, g, r, f, h, -⟩ <;> first | cases ho | cases h
  | entry f => exact absurd hrole (he f)
  | resumed =>
    rcases of_step_resuming ht hrole with ⟨r, f, rfl, rfl⟩ | ⟨g, r, f, rfl, rfl⟩
    · rcases of_step_signal hσ hr with ⟨-, ho⟩ | ⟨-, g, r, f, h, -⟩ <;> first | cases ho | cases h
    · rcases of_step_signal hσ hr with ⟨-, ho⟩ | ⟨-, g', r', f', h, rfl⟩
      · cases ho
      · cases h
        exact ⟨_, hclean rfl (by simp [Task.isDriver, hrole]) (by simp [hrole]),
          .inl rfl⟩
  | suspend f =>
    obtain ⟨r, rfl, rfl⟩ := of_step_suspend ht hrole
    rcases of_step_signal hσ hr with ⟨-, ho⟩ | ⟨-, g, r, f, h, -⟩ <;> first | cases ho | cases h
  | released r =>
    obtain ⟨g, rfl, hcalm, rfl⟩ := of_step_released ht hrole
    have ho := isOpen_of_isCalm hcalm
    exact ⟨_, hclean ho (by simp [Task.isDriver, hrole]) (by simp [hrole]),
      .inr (.inr ⟨g, r, rfl, hkeep rfl, rfl⟩)⟩

end Mode

namespace World

variable {A : Prop} {w : World} {m : Mode} {t σ : Task}
  {below : List (Item Task)}

theorem filed_cleanup {i : Nat} (h : t.Filed w i below) :
    Item.Filed w i (t.cleanup.map .task) := by
  cases hd : t.isDriver with
  | true =>
    obtain ⟨us, k, vs, hcl, hus, hvs, ho⟩ := Task.cleanup_driver hd
    rw [hcl, List.map_append]
    exact (Item.filed_free hus).append ⟨ho w i below h, Item.filed_free hvs⟩
  | false =>
    rcases Task.cleanup_free hd with hc | ⟨k, rfl⟩ | ⟨k, rfl⟩
    · exact Item.filed_free hc
    · exact ⟨h, trivial⟩
    · exact ⟨h, trivial⟩

theorem edge_of_role (h : t.role = .code ∨ t.role = .fail) : Item.edge (.task t :: below) = .plain := by
  rcases h with h | h <;> cases t <;> first | rfl | cases h

theorem Sound.pop_signal (hs : Sound A w) (hstk : w.thread.stack = .task σ :: .task t :: below)
    (hr : σ.role = .code ∨ σ.role = .fail) : ∃ m₁ m₀ m, Mode.of below = some m₁ ∧
      Mode.step (.task t) m₁ = some m₀ ∧ Mode.step (.task σ) m₀ = some m ∧
      Staging A (some (m, .plain)) ((w.setStack (.task t :: below)).setStack below) ∧
      Covered (t.tokens ++ σ.tokens) ((w.setStack (.task t :: below)).setStack below) ∧
      Item.Filed ((w.setStack (.task t :: below)).setStack below) (w.active - 1) below ∧
      t.Filed ((w.setStack (.task t :: below)).setStack below) (w.active - 1) below ∧
      ((w.setStack (.task t :: below)).setStack below).thread.stack = below := by
  obtain ⟨m₀, m, h₀, hσ, hst, hc, hf, -⟩ := hs.pop hstk
  obtain ⟨m₁, h₁, ht⟩ := Mode.of_cons h₀
  have hw : (w.setStack (.task t :: below)).Seated := (seated_modifyThread _).mpr hs.seated
  rw [edge_of_role hr] at hst
  have hl : Later (w.setStack (.task t :: below)) ((w.setStack (.task t :: below)).setStack below) :=
    .of_eq rfl rfl rfl
  have hf' := hf.later hl
  exact ⟨m₁, m₀, m, h₁, ht, hσ, hst.setStack below,
    hc.pop hw (stack_setStack hs.seated _), hf'.2, hf'.1, stack_setStack hw _⟩

theorem Staging.escape {g : Ground} (hs : Staging A (some (⟨g, .none⟩, .plain)) w)
    (hc : g.isCalm = true) (hd : g.isDriving = true) (hA : A) {h : HubId}
    (ho : w.Owned h (w.active - 1)) : Staging A (some (⟨.arrived, .none⟩, .plain)) w :=
  hs.shift hs.exempt.1 (.of_threads rfl rfl rfl) rfl ho rfl rfl nofun
    (fun _ hi => by cases hi; cases hd)
    fun _ hfine => hfine.escape hc hd hA .refl

theorem filed_signal {i : Nat} (hr : σ.isPlain = true ∨ σ.role = .fail) : σ.Filed w i below := by
  rcases hr with h | h
  · exact Item.filed_of_plain h
  · cases σ <;> cases h
    trivial

theorem Sound.pass (hs : Sound A w) (hstk : w.thread.stack = .task σ :: .task t :: below)
    (hr : σ.isPlain = true ∨ σ.role = .fail)
    (hres : σ.role = .fail ∨ ∀ i rest, below ≠ .task (.resumed i) :: rest)
    (he : ∀ f, t.role ≠ .entry f) (hA : t.isVital = true → A) :
    Sound A (((w.setStack (.task t :: below)).setStack below).pass t σ) := by
  have hr' : σ.role = .code ∨ σ.role = .fail := hr.imp Task.role_of_isPlain id
  obtain ⟨m₁, m₀, m, h₁, ht, hσ, hst, hc, hf, hft, hstk'⟩ := hs.pop_signal hstk hr'
  have hact : ((w.setStack (.task t :: below)).setStack below).active = w.active := rfl
  generalize (w.setStack (.task t :: below)).setStack below = v at *
  rw [← hact] at hf hft
  have hres' : σ.role = .fail ∨ ∀ g r f, m₁ ≠ ⟨g, .off r f .resumed⟩ := by
    refine hres.imp id fun h g r f he => ?_
    obtain ⟨i, rest, hb⟩ := Mode.resumed_of_off (he ▸ h₁)
    exact h i rest hb
  obtain ⟨m', hm', hcase⟩ := Mode.of_pass h₁ ht hσ hr' hres' he
  have hst' : Staging A (some (m', .plain)) v := by
    rcases hcase with rfl | ⟨hd, hu, hcalm, hdr, rfl⟩ | ⟨g, r, hrole, rfl, rfl⟩
    · exact hst
    · obtain ⟨us, i, vs, -, -, -, ho⟩ := Task.cleanup_driver (Task.isDriver_of_isDriven hd)
      obtain ⟨g, u⟩ := m
      obtain rfl : u = .none := hu
      exact hst.escape hcalm hdr (hA (Task.isVital_of_isDriven hd)) (ho v _ below hft)
    · cases t <;> cases hrole
      exact hst.reunwind hft.1 nofun (fun _ => hA rfl) nofun nofun
  have hstk'' := stack_push hst.seated (t.cleanup ++ [σ])
  rw [hstk'] at hstk''
  have hl : Later v (v.push (t.cleanup ++ [σ])) := .of_eq rfl rfl rfl
  refine ⟨⟨m', by rw [World.pass, hstk'']; exact hm', (hst'.push _).edge _⟩,
    hc.push hst.seated fun k => ?_, ?_⟩
  · have := Task.count_tokensOf_cleanup t k
    simp only [Task.tokensOf_append, Task.tokensOf_cons, Task.tokensOf_nil, List.append_nil,
      List.count_append, List.count_nil] at *
    omega
  · rw [World.pass, hstk'', List.map_append, List.append_assoc]
    exact Item.Filed.later ((filed_cleanup hft).append ⟨filed_signal hr, hf⟩) hl

theorem Sound.meet (hs : Sound A w) (hstk : w.thread.stack = .task σ :: .task t :: below)
    (hr : σ.role = .code ∨ σ.role = .fail) (ht : t.role = .code) :
    ∃ m, m.isOpen = true ∧ Steady A (t.tokens ++ σ.tokens) m
      ((w.setStack (.task t :: below)).setStack below) := by
  obtain ⟨m₁, m₀, m, h₁, h₀, hσ, hst, hc, hf, hft, hstk'⟩ := hs.pop_signal hstk hr
  obtain ⟨rfl, ho⟩ := Mode.of_step_code h₀ ht
  obtain rfl : m = m₀ := by
    rcases Mode.of_step_signal hσ hr with ⟨rfl, -⟩ | ⟨-, g, r, f, rfl, -⟩
    · rfl
    · cases ho
  exact ⟨m, ho, hst, hc, by rw [hstk']; exact h₁, by rw [hstk']; exact hf⟩

theorem Sound.meets (hs : Sound A w) (hstk : w.thread.stack = .task σ :: .task t :: below)
    (hr : σ.role = .code ∨ σ.role = .fail) (ht : t.role = .code)
    (hns : ∀ r, .sole r ∉ t.tokens ++ σ.tokens) {w' : World}
    (e : Effect .full (t.tokens ++ σ.tokens) ((w.setStack (.task t :: below)).setStack below) [] w') :
    Sound A w' := by
  obtain ⟨m, ho, h⟩ := hs.meet hstk hr ht
  obtain ⟨m', -, h'⟩ := Steady.effect e h ho hns
  exact h'.sound

theorem signal_eq (hw : w.Seated) (run : Task → World → World) :
    (w.setStack (.task t :: below)).signal run =
      run t ((w.setStack (.task t :: below)).setStack below) := by
  rw [signal, stack_setStack hw]

theorem not_resumed {c : Context} (h : Context.of below = some c) (hc : c ≠ .floor) (i : HubId)
    (rest : List (Item Task)) : below ≠ .task (.resumed i) :: rest := by
  rintro rfl
  obtain ⟨c', -, hi⟩ := Context.of_cons h
  exact hc (Context.guard_eq_some_iff.mp hi).2.symm

theorem Sound.pass_over (hs : Sound A w) (hstk : w.thread.stack = .task σ :: .task t :: below)
    (hp : σ.isPlain = true) {c c' : Context} (hb : Context.of below = some c)
    (hi : Context.task t c = some c') (hc : c ≠ .floor ∧ c ≠ .base) (hc' : c' ≠ .floor) :
    Sound A (((w.setStack (.task t :: below)).setStack below).pass t σ) := by
  refine hs.pass hstk (.inl hp) (.inr (not_resumed hb hc.1)) (fun f hf => ?_) fun hd => ?_
  · cases t <;> cases hf
    exact hc.2 (by simpa using (Context.guard_eq_some_iff.mp hi).1)
  · exfalso
    cases t <;> first
      | exact hc' (Option.some.inj hi).symm
      | exact hc' (Context.guard_eq_some_iff.mp hi).2.symm
      | cases hd

theorem exists_below {c' : Context} {rest : List (Item Task)} (h : Context.of rest = some c')
    (hc : c' ≠ .floor ∧ c' ≠ .base) : ∃ t below c, rest = .task t :: below ∧
      Context.of below = some c ∧ Context.task t c = some c' := by
  cases rest with
  | nil => exact absurd (Option.some.inj h).symm hc.1
  | cons i below =>
    obtain ⟨c, hb, hi⟩ := Context.of_cons h
    cases i with
    | base => exact absurd (Option.some.inj hi).symm hc.2
    | task t => exact ⟨t, below, c, rfl, hb, hi⟩

theorem Sound.answer (hs : Sound A w) {outcome : Except SwitchError (Args Obj)}
    {rest : List (Item Task)} (hstk : w.thread.stack = .task (.answer outcome) :: rest)
    (hctx : Context.of rest = some .await) :
    Sound A ((w.setStack rest).signal (World.answer outcome)) := by
  obtain ⟨t, below, c, rfl, hb, hi⟩ := exists_below hctx ⟨nofun, nofun⟩
  rw [signal_eq hs.seated]
  have hw : ((w.setStack (.task t :: below)).setStack below).Seated :=
    (seated_modifyThread _).mpr ((seated_modifyThread _).mpr hs.seated)
  have hns : ∀ r, .sole r ∉ (Task.answer outcome).tokens := fun r => by
    cases outcome <;> simp [Task.tokens]
  cases t with
  | switched name target catches =>
    exact hs.meets hstk (.inl rfl) rfl (fun r => by simpa [Task.tokens] using hns r)
      (Effect.switched (.inl trivial) name target catches outcome)
  | rally r =>
    exact hs.meets hstk (.inl rfl) rfl (fun q => by simpa [Task.tokens] using hns q)
      (Effect.rallyAnswered hw r outcome)
  | _ =>
    rcases Context.await_below hi with rfl | ⟨name, target, catches, h⟩ | ⟨r, h⟩
    · exact hs.pass_over hstk rfl hb hi ⟨nofun, nofun⟩ nofun
    · cases h
    · cases h

theorem all_isPlain_dropFlow (flow : Flow) : (Task.dropFlow flow).all Task.isPlain = true := by
  cases flow with
  | ret a => exact Task.all_isPlain_dropArgs a
  | _ => rfl

theorem Sound.leave (hs : Sound A w) {flow : Flow} {rest : List (Item Task)}
    (hstk : w.thread.stack = .task (.leave flow) :: rest) (hctx : Context.of rest = some .frame) :
    Sound A ((w.setStack rest).signal (World.leave flow)) := by
  obtain ⟨t, below, c, rfl, hb, hi⟩ := exists_below hctx ⟨(by simp), (by simp)⟩
  rw [signal_eq hs.seated]
  have hpass (hf : ∀ f, t ≠ .frame f) :
      Sound A (((w.setStack (.task t :: below)).setStack below).pass t (.leave flow)) := by
    rcases Context.frame_below hi with rfl | ⟨f, h⟩
    · exact hs.pass_over hstk rfl hb hi ⟨(by simp), (by simp)⟩ (by simp)
    · exact absurd h (hf f)
  cases t with
  | frame f =>
    have e {v : World} : Effect .full (f.tokens ++ flow.tokens) v [] (v.endFrame f flow) :=
      (Effect.trade fun k => by simp only [List.count_append]; omega).trans (.endFrame f flow)
    refine hs.meets hstk (.inl rfl) rfl (fun r => by simp [Task.tokens]) ?_
    unfold World.leave
    dsimp only
    split
    · exact (Effect.quiet (.event _ _)).trans e
    · exact e
  | mainGuard =>
    cases flow with
    | error e =>
      exact hs.meets hstk (.inl rfl) rfl (fun r => by simp [Task.tokens, Flow.tokens])
        (.quiet (.event _ _))
    | _ => exact hpass (by simp)
  | dropEnd name =>
    refine hs.meets hstk (.inl rfl) rfl (fun r => by simp [Task.tokens])
      (Effect.refl.pushing ?_ fun k => by simp [Task.tokens])
    rw [List.all_append, all_isPlain_dropFlow]
    rfl
  | _ => exact hpass (by simp)

theorem Sound.hand (hs : Sound A w) {last : Args Obj} {flow : Flow} {rest : List (Item Task)} {c' : Context}
    (hstk : w.thread.stack = .task (.hand last flow) :: rest) (hctx : Context.of rest = some c')
    (hc' : c'.isEnd = true) :
    Sound A ((w.setStack rest).signal (World.hand last flow)) := by
  have hfloor : c' ≠ .floor := by
    rintro rfl
    cases hc'
  have hbase : c' ≠ .base := by
    rintro rfl
    cases hc'
  obtain ⟨t, below, c, rfl, hb, hi⟩ := exists_below hctx ⟨hfloor, hbase⟩
  rw [signal_eq hs.seated]
  have hpass (h₁ : t ≠ .rootEnd) (h₂ : ∀ how, t ≠ .nestEnd how) (h₃ : ∀ run, t ≠ .bodyEnd run) :
      Sound A (((w.setStack (.task t :: below)).setStack below).pass t (.hand last flow)) := by
    rcases Context.end_below hi hc' with rfl | h | ⟨how, h, -⟩ | ⟨run, h, -⟩
    · exact hs.pass_over hstk rfl hb hi ⟨hfloor, hbase⟩ hfloor
    · exact absurd h h₁
    · exact absurd h (h₂ how)
    · exact absurd h (h₃ run)
  cases t with
  | nestEnd how =>
    exact hs.meets hstk (.inl rfl) rfl (fun r => by simp [Task.tokens]) 
      (Effect.nestEnd (.inl trivial) how last flow)
  | bodyEnd run =>
    refine hs.meets hstk (.inl rfl) rfl (fun r => by simp [Task.tokens])
      (Effect.refl.pushing ?_ fun k => ?_)
    · rw [List.all_append, List.all_append, Task.all_isPlain_dropArgs, Task.all_isPlain_dropRun]
      rfl
    · cases flow <;> simp [Task.tokens, bodyResult, Payload.tokens, Flow.tokens] <;> omega
  | rootEnd =>
    refine hs.meets hstk (.inl rfl) rfl (fun r => by simp [Task.tokens])
      (Effect.refl.pushing ?_ fun k => by simp [Task.tokens])
    rw [List.all_append, Task.all_isPlain_dropArgs, all_isPlain_dropFlow]
    rfl
  | _ => exact hpass (by simp) (by simp) (by simp)

end World

end Switchyard
