import Switchyard.Proofs.Effect.Run
import Switchyard.Proofs.Signals.Context

/-!
# The context of the active thread

What looks up names and values leaves the control stack alone; what drops values adds tasks that
signals pass.
-/

namespace Switchyard

/-- A saved stack is in order once it stands on a base. -/
def Fiber.Phase.InOrder : Fiber.Phase Task → Prop
  | .fresh entry discard =>
    (∃ c, Context.base.upon (entry.map .task) = some c) ∧ discard.all Task.isNeutral = true
  | .parked stack => ∃ c, Context.base.upon stack = some c
  | _ => True

namespace World

variable {w w' w'' : World} {c c' : Context}

/-- The control stacks and the fibers are the same. -/
structure Level (w w' : World) : Prop where
  active : w'.active = w.active
  seated : w.Seated → w'.Seated
  stackAt : ∀ i, w'.stackAt i = w.stackAt i
  fibers : w'.fibers = w.fibers

namespace Level

theorem refl (w : World) : Level w w := ⟨rfl, id, fun _ => rfl, rfl⟩

theorem trans (h : Level w w') (h' : Level w' w'') : Level w w'' :=
  ⟨h'.active.trans h.active, fun hw => h'.seated (h.seated hw),
    fun i => (h'.stackAt i).trans (h.stackAt i), h'.fibers.trans h.fibers⟩

theorem of_eq (ht : w'.threads = w.threads) (ha : w'.active = w.active)
    (hf : w'.fibers = w.fibers) : Level w w' :=
  ⟨ha, fun hw => by simpa [Seated, ht, ha] using hw, fun i => by simp [World.stackAt, ht], hf⟩

theorem modifyThread {f : Thread → Thread} (hf : ∀ t, (f t).stack = t.stack) :
    Level w (w.modifyThread f) := by
  refine ⟨rfl, (seated_modifyThread f).mpr, fun i => ?_, rfl⟩
  simp only [World.stackAt, World.modifyThread, Array.getElem?_modify]
  split
  · cases w.threads[i]? <;> simp [hf]
  · rfl

theorem stack (h : Level w w') : w'.thread.stack = w.thread.stack := by
  rw [stack_eq_stackAt, stack_eq_stackAt, h.active, h.stackAt]

theorem touch (s : SlotName) : Level w (w.touch s) := by
  unfold World.touch
  split
  · exact refl w
  · exact modifyThread fun _ => rfl

theorem touchPending : Level w w.touchPending := by
  unfold World.touchPending
  split
  · exact refl w
  · exact touch _

theorem touchHome : Level w w.touchHome := by
  unfold World.touchHome
  split
  · exact refl w
  · exact touch _

theorem event (name : String) (result : List Datum) : Level w (w.event name result) :=
  touchHome.trans (of_eq rfl rfl rfl)

theorem note (name : String) (result : List Datum) : Level w (w.note name result) := event _ _

theorem retain (r : Ref) : Level w (w.retain r) := of_eq rfl rfl rfl

theorem retainObj (o : Obj) : Level w (w.retainObj o) := by
  cases o <;> exact of_eq rfl rfl rfl

theorem retainAll (os : List Obj) : Level w (w.retainAll os) := by
  induction os generalizing w with
  | nil => exact refl w
  | cons o os ih => exact (retainObj o).trans ih

theorem registerFailure (f : Failure) : Level w (w.registerFailure f) := by
  unfold World.registerFailure
  simp only
  split
  · have h : Level w (w.touchPending.alloc (.failure f)).2 := touchPending.trans (of_eq rfl rfl rfl)
    exact h.trans (modifyThread fun _ => rfl)
  · exact touchPending

theorem raise (e : SwitchError) : Level w (w.raise e) := registerFailure _

theorem takePending : Level w w.takePending.2 := by
  unfold World.takePending
  simp only
  split
  · exact touchPending.trans (modifyThread fun _ => rfl)
  · exact touchPending

theorem homeHub : Level w w.homeHub.2 := by
  unfold World.homeHub
  simp only
  split
  · exact touchHome
  · have h : Level w w.touchHome.createHub.2 := touchHome.trans (of_eq rfl rfl rfl)
    exact h.trans (modifyThread fun _ => rfl)
  · exact touchHome.trans (raise _)

theorem hubFor (name : Option String) : Level w (w.hubFor name).2 := by
  unfold World.hubFor
  split
  · exact refl w
  · exact homeHub

theorem peek (name : String) : Level w (w.peek name).2 := by
  unfold World.peek
  split
  · have h : Level w w.homeHub.2 := homeHub
    split
    · simp_all
    · simp_all only
      split
      · exact h
      · split <;> exact h
  · exact refl w

theorem handle (name : String) : Level w (w.handle name).2 := by
  unfold World.handle
  have h : Level w (w.peek name).2 := peek name
  split
  · simp_all only
    exact h.trans (retain _)
  · simp_all

theorem handleIfNamed (name : Option String) : Level w (w.handleIfNamed name).2 := by
  cases name with
  | none => exact refl w
  | some name => exact handle name

theorem takeHandle (name : String) : Level w (w.takeHandle name).2 := of_eq rfl rfl rfl

theorem takeHandles (names : List String) : Level w (w.takeHandles names).2 := by
  induction names generalizing w with
  | nil => exact refl w
  | cons n ns ih => exact (takeHandle n).trans ih

theorem bindHandle (name : String) (r : Ref) : Level w (w.bindHandle name r).2 := of_eq rfl rfl rfl
theorem bindObject (name : String) (o : Obj) : Level w (w.bindObject name o).2 := of_eq rfl rfl rfl
theorem bindOut (name : String) (o : Obj) : Level w (w.bindOut name o).2 := of_eq rfl rfl rfl
theorem takeObject (name : String) : Level w (w.takeObject name).2 := of_eq rfl rfl rfl

theorem eval (received : Args Obj) (v : Script.ValueSpec) : Level w (w.eval received v).2 := by
  cases v with
  | greenlet name =>
    refine (peek name).trans ?_
    unfold World.eval
    dsimp only
    cases (w.peek name).1 with
    | none => exact of_eq rfl rfl rfl
    | some r => exact retainObj (some r)
  | object name =>
    unfold World.eval
    dsimp only
    cases w.objects.find? name with
    | none => exact of_eq rfl rfl rfl
    | some o => exact retainObj o
  | received at_ =>
    unfold World.eval
    dsimp only
    cases select received at_ with
    | none => exact of_eq rfl rfl rfl
    | some o => exact retainObj o
  | _ => exact of_eq rfl rfl rfl

theorem createGreenlet (h : HubId) (run : RunFn) (p : Option Ref) :
    Level w (w.createGreenlet h run p).2 := by
  unfold World.createGreenlet
  simp only
  split
  · exact raise _
  · split
    · exact raise _
    · exact of_eq rfl rfl rfl

theorem setParent (r p : Ref) : Level w (w.setParent r p).2 := by
  unfold World.setParent
  split
  · exact raise _
  · exact of_eq rfl rfl rfl

theorem ownerOf (r : Ref) : Level w (w.ownerOf r).2 := by
  unfold World.ownerOf
  split
  · exact refl w
  · exact raise _

end Level

theorem modifyFrame_eq_setStack (hw : w.Seated) (g : Frame → Frame) :
    w.modifyFrame g = w.setStack (modifyFrameOf g w.thread.stack) := by
  simp only [World.modifyFrame, World.setStack, World.modifyThread, World.mk.injEq, and_true,
    true_and]
  apply Array.ext_getElem?
  intro i
  simp only [Array.getElem?_modify]
  split
  · subst_vars
    rw [hw.getElem?]
    rfl
  · rfl

/-- Every control stack is in order, and the active thread stands in context `c`. -/
structure Stands (w : World) (c : Context) : Prop where
  seated : w.Seated
  context : Context.of w.thread.stack = some c
  everywhere : ∀ i, ∃ c, Context.of (w.stackAt i) = some c
  saved : ∀ (f : FiberId) s, w.fibers[f]? = some s → s.phase.InOrder

namespace Stands

theorem level (h : w.Stands c) (hl : Level w w') : w'.Stands c where
  seated := hl.seated h.seated
  context := by rw [hl.stack]; exact h.context
  everywhere i := by rw [hl.stackAt]; exact h.everywhere i
  saved := by rw [hl.fibers]; exact h.saved

theorem setStack (h : w.Stands c) {s : List (Item Task)} (hs : Context.of s = some c') :
    (w.setStack s).Stands c' where
  seated := (seated_modifyThread _).mpr h.seated
  context := by
    unfold World.setStack
    rw [thread_modifyThread h.seated]
    exact hs
  everywhere i := by
    rw [stackAt_setStack h.seated]
    split
    · exact ⟨c', hs⟩
    · exact h.everywhere i
  saved := h.saved

theorem push (h : w.Stands c) {ts : List Task} (ht : c.upon (ts.map .task) = some c') :
    (w.push ts).Stands c' := by
  rw [push_eq_setStack h.seated]
  refine h.setStack ?_
  rw [Context.of_append, h.context]
  exact ht

theorem neutral (h : w.Stands c) {ts : List Task} (ht : ts.all Task.isNeutral = true) :
    (w.push ts).Stands c :=
  h.push (Context.upon_neutral ht)

theorem modifyFrame (h : w.Stands c) (g : Frame → Frame) : (w.modifyFrame g).Stands c := by
  rw [modifyFrame_eq_setStack h.seated]
  exact h.setStack ((Context.upon_modifyFrameOf _ _).trans h.context)

end Stands

end World

end Switchyard
