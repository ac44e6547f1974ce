import Switchyard.Proofs.Signals.Control

/-!
# Errors on their way

An operation that fails leaves an answer on the control stack: the error comes to the caller when
the answer is on top, after what lies above it was dropped. Most steps add no answer with an error.
They may bring one back with a stack that was set aside while the answer was on it.
-/

namespace Switchyard

open World

/-- The error that the task hands to the operation below it. -/
def Task.refusal? : Task → Option SwitchError
  | answer (.error e) => some e
  | _ => none

/-- The task hands no error on. -/
def Task.isSilent (t : Task) : Bool := t.refusal?.isNone

theorem Task.isSilent_of_isLoose {t : Task} (h : t.isLoose = true) : t.isSilent = true := by
  cases t with
  | answer => cases h
  | _ => rfl

theorem Task.all_isSilent_of_loose {ts : List Task} (h : ts.all isLoose = true) :
    ts.all isSilent = true := by
  simp only [List.all_eq_true] at h ⊢
  exact fun t ht => isSilent_of_isLoose (h t ht)

theorem Task.all_isSilent_of_neutral {ts : List Task} (h : ts.all isNeutral = true) :
    ts.all isSilent = true :=
  all_isSilent_of_loose (all_isLoose_of_neutral h)

namespace Item

def refusal? : Item Task → Option SwitchError
  | .task t => t.refusal?
  | .base .. => none

/-- The errors on the stack that are on their way to the operations they answer. -/
def refusals (s : List (Item Task)) : List SwitchError := s.filterMap refusal?

variable {e : SwitchError} {s s' : List (Item Task)}

@[simp] theorem refusals_nil : refusals [] = [] := rfl

@[simp] theorem refusals_append : refusals (s ++ s') = refusals s ++ refusals s' :=
  List.filterMap_append

@[simp] theorem refusals_base (f : FiberId) (forced : Bool) :
    refusals (.base f forced :: s) = refusals s := rfl

theorem refusals_task (t : Task) : refusals (.task t :: s) = t.refusal?.toList ++ refusals s := by
  simp only [refusals, List.filterMap_cons, refusal?]
  cases t.refusal? <;> rfl

theorem refusals_silent {ts : List Task} (h : ts.all Task.isSilent = true) :
    refusals (ts.map .task) = [] := by
  induction ts with
  | nil => rfl
  | cons t ts ih =>
    simp only [List.all_cons, Bool.and_eq_true, Task.isSilent, Option.isNone_iff_eq_none] at h
    rw [List.map_cons, refusals_task, h.1, ih h.2]
    rfl

theorem refusals_modifyFrameOf (g : Frame → Frame) (s : List (Item Task)) :
    refusals (World.modifyFrameOf g s) = refusals s := by
  induction s with
  | nil => rfl
  | cons x s ih =>
    unfold World.modifyFrameOf
    split
    · rename_i h
      cases h
    · rename_i f rest h
      obtain ⟨rfl, rfl⟩ := List.cons.inj h
      rfl
    · rename_i j rest _ h
      obtain ⟨rfl, rfl⟩ := List.cons.inj h
      simp only [refusals, List.filterMap_cons] at ih ⊢
      rw [ih]

theorem count_refusals_tail (x : Item Task) : (refusals s).count e ≤ (refusals (x :: s)).count e :=
  ((List.sublist_cons_self x s).filterMap refusal?).count_le e

end Item

open Item

def Fiber.Phase.refusals : Fiber.Phase Task → List SwitchError
  | .fresh entry discard => Item.refusals ((entry ++ discard).map .task)
  | .parked stack => Item.refusals stack
  | _ => []

namespace Control

variable {e : SwitchError} {k k' k'' : Control Task} {f : FiberId}

/-- No stack was set aside from `k` to `k'`: what was aside still is, or holds no answer any more. -/
def Spends (k k' : Control Task) : Prop :=
  ∀ f, (k'.fiberD f).phase = (k.fiberD f).phase ∨ (k'.fiberD f).phase.refusals = []

/-- A stack that was aside with an answer with `e` on it has been taken up, or given up. -/
def TakesUp (e : SwitchError) (k k' : Control Task) : Prop :=
  ∃ f, e ∈ (k.fiberD f).phase.refusals ∧ (k'.fiberD f).phase.refusals = []

theorem TakesUp.spends (h : TakesUp e k k') (hs : Spends k' k'') : TakesUp e k k'' := by
  obtain ⟨f, he, hf⟩ := h
  refine ⟨f, he, ?_⟩
  rcases hs f with hs | hs
  · rw [hs, hf]
  · exact hs

theorem Spends.takesUp (hs : Spends k k') (h : TakesUp e k' k'') : TakesUp e k k'' := by
  obtain ⟨f, he, hf⟩ := h
  refine ⟨f, ?_, hf⟩
  rcases hs f with hs | hs
  · rwa [← hs]
  · rw [hs] at he
    cases he

/-- From `k` to `k'` no answer with `e` was added to the control stack, unless it was aside with a
stack that was taken up. -/
structure Tacit (e : SwitchError) (k k' : Control Task) : Prop where
  spends : Spends k k'
  count : (Item.refusals k'.stack).count e ≤ (Item.refusals k.stack).count e ∨ TakesUp e k k'

namespace Tacit

theorem refl (k : Control Task) : Tacit e k k := ⟨fun _ => .inl rfl, .inl (Nat.le_refl _)⟩

theorem trans (h : Tacit e k k') (h' : Tacit e k' k'') : Tacit e k k'' where
  spends f := by
    rcases h'.spends f with h' | h'
    · rw [h']
      exact h.spends f
    · exact .inr h'
  count := by
    rcases h'.count with hc' | ht'
    · exact h.count.imp (Nat.le_trans hc') fun ht => ht.spends h'.spends
    · exact .inr (h.spends.takesUp ht')

theorem modify {u : Fiber Task → Fiber Task}
    (hu : ∀ s, (u s).phase = s.phase ∨ (u s).phase.refusals = []) : Tacit e k (k.modify f u) where
  spends g := by
    rw [fiberD_modify]
    split
    · exact hu _
    · exact .inl rfl
  count := .inl (Nat.le_refl _)

theorem refusals_modify {u : Fiber Task → Fiber Task} (hu : ∀ s, (u s).phase.refusals = []) :
    ((k.modify f u).fiberD f).phase.refusals = [] := by
  rw [fiberD_modify]
  split
  · exact hu _
  · rename_i hf
    have hn : ¬ f < k.fibers.size := fun h => hf ⟨rfl, h⟩
    rw [fiberD, Array.getElem?_eq_none (Nat.le_of_not_lt hn)]
    rfl

private theorem mount {u : Fiber Task → Fiber Task} (hu : ∀ s, (u s).phase.refusals = [])
    {s below : List (Item Task)} {l : List (List (Item Task))}
    (hs : ∀ x ∈ refusals s, x ∈ (k.fiberD f).phase.refusals)
    (hb : refusals below = refusals k.stack) :
    Tacit e k { k.modify f u with stack := s ++ below, lost := l } where
  spends := (modify (e := e) fun s => .inr (hu s)).spends
  count := by
    by_cases he : e ∈ refusals s
    · exact .inr ⟨f, hs e he, refusals_modify hu⟩
    · refine .inl (Nat.le_of_eq ?_)
      rw [refusals_append, hb, List.count_append, List.count_eq_zero_of_not_mem he, Nat.zero_add]

theorem resume (hr : k.resume f = some k') : Tacit e k k' := by
  unfold Control.resume at hr
  split at hr
  · cases hr
  · rename_i entry discard he
    obtain rfl := Option.some.inj hr
    refine mount (fun _ => rfl) (fun x hx => ?_) rfl
    rw [he, Fiber.Phase.refusals, List.map_append, refusals_append]
    exact List.mem_append_left _ hx
  · rename_i s he
    obtain rfl := Option.some.inj hr
    exact mount (fun _ => rfl) (fun x hx => by rwa [he]) rfl
  · obtain rfl := Option.some.inj hr
    exact refl k
  · obtain rfl := Option.some.inj hr
    exact refl k

theorem land (f : FiberId) (forced : Bool) : Tacit e k (k.land f forced) := by
  refine modify fun s => ?_
  split
  · exact .inl rfl
  · exact .inr rfl

theorem destroy (f : FiberId) (panicking : Bool) : Tacit e k (k.destroy f panicking).1 := by
  have ht : Tacit e k (k.modify f fun s => { s with phase := .taken }) := modify fun _ => .inr rfl
  unfold Control.destroy
  simp only
  split
  · rename_i entry discard he
    refine mount (fun _ => rfl) (fun x hx => ?_) rfl
    rw [he, Fiber.Phase.refusals, List.map_append, refusals_append]
    exact List.mem_append_right _ hx
  · rename_i s he
    split
    · exact ⟨ht.spends, ht.count⟩
    · exact mount (fun _ => rfl) (fun x hx => by rwa [he]) rfl
  · exact refl k
  · exact ht
  · exact ht

theorem unshare (f : FiberId) (panicking : Bool) : Tacit e k (k.unshare f panicking).1 := by
  have hm : Tacit e k (k.modify f fun s => { s with handles := s.handles - 1 }) :=
    modify fun _ => .inl rfl
  have hc : Tacit e k ((k.modify f fun s => { s with handles := s.handles - 1 }).modify f
      fun s => { s with cancelling := true }) := hm.trans (modify fun _ => .inl rfl)
  unfold Control.unshare
  simp only
  split
  · exact hc.trans (destroy f panicking)
  · exact hm

theorem abandon (f : FiberId) : Tacit e k (k.abandon f) := by
  have hm : Tacit e k (k.modify f Fiber.settle) := modify fun _ => .inl rfl
  have ht : Tacit e k ((k.modify f Fiber.settle).modify f fun s => { s with phase := .taken }) :=
    hm.trans (modify fun _ => .inr rfl)
  unfold Control.abandon
  simp only
  split
  · exact ⟨ht.spends, ht.count⟩
  · exact ⟨ht.spends, ht.count⟩
  · exact hm
  · exact ht
  · exact ht

theorem share (f : FiberId) : Tacit e k (k.share f) := modify fun _ => .inl rfl

theorem create {entry discard : List Task} (hs : (entry ++ discard).all Task.isSilent = true) :
    Tacit e k (k.create entry discard).2 where
  spends f := by
    simp only [Control.create, fiberD, Array.getElem?_push]
    split
    · refine .inr ?_
      simp only [Option.getD_some, Fiber.Phase.refusals, refusals_silent hs]
    · exact .inl rfl
  count := .inl (Nat.le_refl _)

end Tacit

theorem count_suspend (hr : k.suspend = some k') :
    (Item.refusals k'.stack).count e ≤ (Item.refusals k.stack).count e := by
  unfold Control.suspend at hr
  obtain ⟨⟨above, f, forced, below⟩, hs, hk⟩ := Option.map_eq_some_iff.mp hr
  have hb : (refusals below).count e ≤ (refusals k.stack).count e := by
    rw [(Control.split_eq hs).1, refusals_append, refusals_base, List.count_append]
    exact Nat.le_add_left _ _
  simp only at hk
  split at hk
  · subst hk
    exact hb
  · subst hk
    exact hb

end Control

namespace World

variable {e : SwitchError} {w₀ w w' : World} {i : Nat} {ts : List Task}

/-- The errors that are on their way to operations of the thread at place `i`. -/
def returning (w : World) (i : Nat) : List SwitchError := Item.refusals (w.stackAt i)

def TakesUp (e : SwitchError) (w w' : World) : Prop := Control.TakesUp e w.control w'.control

structure Tacit (e : SwitchError) (w₀ w : World) : Prop where
  seated : w.Seated
  spends : Control.Spends w₀.control w.control
  count : ∀ i, (w.returning i).count e ≤ (w₀.returning i).count e ∨ TakesUp e w₀ w

namespace Tacit

theorem refl (hw : w.Seated) : Tacit e w w :=
  ⟨hw, fun _ => .inl rfl, fun _ => .inl (Nat.le_refl _)⟩

theorem setControl (h : Tacit e w₀ w) {k : Control Task} (hk : Control.Tacit e w.control k) :
    Tacit e w₀ (w.setControl k) where
  seated := (seated_modifyThread _).mpr h.seated
  spends f := by
    have hs : ((w.setControl k).control.fiberD f) = k.fiberD f := rfl
    rw [hs]
    rcases hk.spends f with hk | hk
    · rw [hk]
      exact h.spends f
    · exact .inr hk
  count i := by
    have hs : (w.setControl k).stackAt i = if i = w.active - 1 then k.stack else w.stackAt i :=
      stackAt_modifyThread h.seated _ i
    have hup : TakesUp e w₀ w → TakesUp e w₀ (w.setControl k) := fun ht =>
      Control.TakesUp.spends ht hk.spends
    unfold World.returning
    rw [hs]
    split
    · subst_vars
      rcases hk.count with hc | ht
      · refine (h.count (w.active - 1)).imp (Nat.le_trans ?_) hup
        rw [World.returning, ← stack_eq_stackAt]
        exact hc
      · exact .inr (Control.Spends.takesUp h.spends ht)
    · exact (h.count i).imp_right hup

theorem setStack (h : Tacit e w₀ w) {s : List (Item Task)}
    (hs : (Item.refusals s).count e ≤ (Item.refusals w.thread.stack).count e) :
    Tacit e w₀ (w.setStack s) :=
  h.setControl (k := { w.control with stack := s }) ⟨fun _ => .inl rfl, .inl hs⟩

theorem tail (h : Tacit e w₀ w) {x : Item Task} {below : List (Item Task)}
    (hs : w.thread.stack = x :: below) : Tacit e w₀ (w.setStack below) :=
  h.setStack (hs ▸ Item.count_refusals_tail x)

theorem silent (h : Tacit e w₀ w) (ht : ts.all Task.isSilent = true) : Tacit e w₀ (w.push ts) := by
  rw [push_eq_setStack h.seated]
  refine h.setStack ?_
  rw [Item.refusals_append, Item.refusals_silent ht]
  exact Nat.le_refl _

theorem modifyFrame (h : Tacit e w₀ w) (g : Frame → Frame) : Tacit e w₀ (w.modifyFrame g) := by
  rw [modifyFrame_eq_setStack h.seated]
  refine h.setStack (Nat.le_of_eq ?_)
  rw [Item.refusals_modifyFrameOf]

theorem level (h : Tacit e w₀ w) (hl : Level w w') : Tacit e w₀ w' := by
  have hf (f : FiberId) : w'.control.fiberD f = w.control.fiberD f := by
    have hc : w'.control.fibers = w.control.fibers := hl.fibers
    rw [Control.fiberD, Control.fiberD, hc]
  have hs : Control.Spends w.control w'.control := fun f => .inl (congrArg Fiber.phase (hf f))
  refine ⟨hl.seated h.seated, fun f => ?_, fun i => ?_⟩
  · rw [hf]
    exact h.spends f
  · rw [World.returning, hl.stackAt]
    exact (h.count i).imp_right fun ht => Control.TakesUp.spends ht hs

theorem tolerant : Tolerant (Tacit e w₀ ·) where
  level h := h.level
  neutral h _ ht := h.silent (Task.all_isSilent_of_neutral ht)
  modifyFrame h := h.modifyFrame

theorem modifyFiber (h : Tacit e w₀ w) (f : FiberId) {g : Fiber Task → Fiber Task}
    (hg : ∀ s, (g s).phase = s.phase) : Tacit e w₀ (w.modifyFiber f g) := by
  have hk : Control.Tacit e w.control (w.control.modify f g) := .modify fun s => .inl (hg s)
  refine ⟨h.seated, fun x => ?_, fun i => ?_⟩
  · rcases hk.spends x with hx | hx
    · exact (h.spends x).imp hx.trans fun hr => hx ▸ hr
    · exact .inr hx
  · exact (h.count i).imp_right fun ht => Control.TakesUp.spends ht hk.spends

theorem takeControl (h : Tacit e w₀ w) {x : Control Task × Bool}
    (hx : Control.Tacit e w.control x.1) : Tacit e w₀ (w.takeControl x) := by
  unfold World.takeControl
  simp only
  split
  · exact tolerant.fail (h.setControl hx) _
  · exact h.setControl hx

theorem robust : Robust (Tacit e w₀ ·) where
  toTolerant := tolerant
  loose h _ ht := h.silent (Task.all_isSilent_of_loose ht)
  cleanup h _ _ := h.silent rfl
  unshare h f := h.takeControl (.unshare f _)
  unwind {w} h f := by
    unfold World.unwind
    have h₁ : Tacit e w₀ (w.modifyFiber f fun s => { s with cancelling := true }) :=
      h.modifyFiber f fun _ => rfl
    simp only
    split
    · exact h₁.level (.of_eq rfl rfl rfl)
    · have h₂ := h₁.silent (show [Task.settle f].all Task.isSilent = true from rfl)
      exact h₂.takeControl (.destroy f _)
  abandonStack {w} h r := by
    unfold World.abandonStack
    have h₁ : Tacit e w₀ (w.modifyGreenlet r fun g => { g with state := .dead, fiber := none }) :=
      h.level (.of_eq rfl rfl rfl)
    simp only
    split
    · exact h₁
    · split
      · exact h₁
      · exact h₁.setControl (.trans (.abandon _) (.unshare _ _))

end Tacit

end World

end Switchyard
