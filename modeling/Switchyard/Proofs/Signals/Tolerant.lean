import Switchyard.Proofs.Signals.Level

/-!
# What signals pass

Most steps of a script, and much of what the engine does, change what is on control stacks only by
tasks that signals pass, and by what frames hold. Whatever puts up with that puts up with them.
-/

namespace Switchyard

namespace World

variable {P : World → Prop} {w w' : World}

/-- What holds of a world still holds after tasks that signals pass were added, and after a frame
holds something else. -/
structure Tolerant (P : World → Prop) : Prop where
  level {w w' : World} (hs : P w) (hl : Level w w') : P w'
  neutral {w : World} (hs : P w) {ts : List Task} (ht : ts.all Task.isNeutral = true) : P (w.push ts)
  modifyFrame {w : World} (hs : P w) (g : Frame → Frame) : P (w.modifyFrame g)

theorem Stands.tolerant {c : Context} : Tolerant (Stands · c) where
  level hs := hs.level
  neutral hs _ := hs.neutral
  modifyFrame hs := hs.modifyFrame

namespace Tolerant

variable (T : Tolerant P)
include T

theorem swapLast (hs : P w) (a : Args Obj) : P (w.swapLast a).2 := T.modifyFrame hs _

theorem pushLocal (hs : P w) (l : Local) : P (w.pushLocal l) := T.modifyFrame hs _

theorem note (hs : P w) (name : String) (result : List Datum) : P (w.note name result) :=
  T.level hs (.note name result)

theorem after (hs : P w) {ts : List Task} (ht : ts.all Task.isNeutral = true) (name : String)
    (d : Datum) : P (w.after ts name d) :=
  T.neutral hs (by rw [List.all_append, ht]; rfl)

theorem fail (hs : P w) (p : Panic) : P (w.fail p) :=
  T.level (T.neutral hs (show [Task.fail p].all Task.isNeutral = true from rfl))
    (.modifyThread fun _ => rfl)

section

variable {name : String} {o : Option Ref} {x : Obj} {e : Except SwitchError HubId}

theorem peek (hs : P w) (h : w.peek name = (o, w')) : P w' := by
  have := T.level hs (.peek name)
  rwa [h] at this

theorem handle (hs : P w) (h : w.handle name = (o, w')) : P w' := by
  have := T.level hs (.handle name)
  rwa [h] at this

theorem takeHandle (hs : P w) (h : w.takeHandle name = (o, w')) : P w' := by
  have := T.level hs (.takeHandle name)
  rwa [h] at this

theorem takeObject (hs : P w) {x : Option Obj} (h : w.takeObject name = (x, w')) : P w' := by
  have := T.level hs (.takeObject name)
  rwa [h] at this

theorem hubFor (hs : P w) {name : Option String} (h : w.hubFor name = (e, w')) : P w' := by
  have := T.level hs (.hubFor name)
  rwa [h] at this

theorem homeHub (hs : P w) (h : w.homeHub = (e, w')) : P w' := by
  have := T.level hs .homeHub
  rwa [h] at this

theorem takePending (hs : P w) (h : w.takePending = (o, w')) : P w' := by
  have := T.level hs .takePending
  rwa [h] at this

theorem createGreenlet (hs : P w) {i : HubId} {run : RunFn} {p : Option Ref}
    {y : Except SwitchError Ref} (h : w.createGreenlet i run p = (y, w')) : P w' := by
  have := T.level hs (.createGreenlet i run p)
  rwa [h] at this

theorem setParent (hs : P w) {r p : Ref} {y : Except SwitchError (Option Ref)}
    (h : w.setParent r p = (y, w')) : P w' := by
  have := T.level hs (.setParent r p)
  rwa [h] at this

theorem ownerOf (hs : P w) {r : Ref} (h : w.ownerOf r = (e, w')) : P w' := by
  have := T.level hs (.ownerOf r)
  rwa [h] at this

end

theorem bindingHandle (hs : P w) (as_ : String) (r : Ref) (ts : List Task)
    (ht : ts.all Task.isNeutral = true) (name : String) (d : Datum) :
    P ((w.bindHandle as_ r).2.after ((w.bindHandle as_ r).1 ++ ts) name d) :=
  T.after (T.level hs (.bindHandle as_ r))
    (by rw [List.all_append, ht]; simp [World.bindHandle, Task.isNeutral]) name d

theorem bindingObject (hs : P w) (as_ : String) (o : Obj) (name : String) (d : Datum) :
    P ((w.bindObject as_ o).2.after (w.bindObject as_ o).1 name d) :=
  T.after (T.level hs (.bindObject as_ o)) (Task.all_isNeutral_toList_drop _) name d

theorem bindingOut (hs : P w) (as_ : String) (o : Obj) (name : String) (d : Datum) :
    P ((w.bindOut as_ o).2.after (w.bindOut as_ o).1 name d) :=
  T.after (T.level hs (.bindOut as_ o)) (Task.all_isNeutral_toList_drop _) name d

theorem createStep (hs : P w) (as_ body : String) (caps : List Script.Canary)
    (holds : List String) (parent hub : Option String) :
    P (w.createStep as_ body caps holds parent hub) := by
  unfold World.createStep
  have h₂ := T.level (T.level hs (.takeHandles holds)) (.handleIfNamed parent)
  simp only
  split
  · rename_i e w₃ hh
    refine T.after (T.hubFor h₂ hh) ?_ _ _
    rw [List.all_append, Task.all_isNeutral_dropRun, Task.all_isNeutral_toList_drop]
    rfl
  · rename_i h w₃ hh
    have h₃ := T.hubFor h₂ hh
    split
    · rename_i e w₄ hc
      refine T.after (T.createGreenlet h₃ hc) ?_ _ _
      rw [List.all_append, Task.all_isNeutral_dropRun, Task.all_isNeutral_toList_drop]
      rfl
    · rename_i r w₄ hc
      exact T.bindingHandle (T.createGreenlet h₃ hc) as_ r _ (Task.all_isNeutral_toList_drop _) _ _

theorem dropStep (hs : P w) (h : String) : P (w.dropStep h) := by
  unfold World.dropStep
  split
  · rename_i w₁ hh
    exact T.note (T.takeHandle hs hh) _ _
  · rename_i r w₁ hh
    exact T.after (T.takeHandle hs hh) rfl _ _

theorem cloneStep (hs : P w) (h as_ : String) : P (w.cloneStep h as_) := by
  unfold World.cloneStep
  split
  · rename_i w₁ hh
    exact T.note (T.handle hs hh) _ _
  · rename_i r w₁ hh
    simpa using T.bindingHandle (T.handle hs hh) as_ r [] rfl "clone" .ok

theorem holdStep (hs : P w) (h : String) : P (w.holdStep h) := by
  unfold World.holdStep
  split
  · rename_i w₁ hh
    exact T.note (T.takeHandle hs hh) _ _
  · rename_i r w₁ hh
    exact T.note (T.pushLocal (T.takeHandle hs hh) _) _ _

theorem keepStep (hs : P w) (h : String) : P (w.keepStep h) := by
  unfold World.keepStep
  split
  · rename_i w₁ hh
    exact T.note (T.handle hs hh) _ _
  · rename_i r w₁ hh
    exact T.note (T.pushLocal (T.handle hs hh) _) _ _

theorem popStep (hs : P w) : P w.popStep := by
  unfold World.popStep
  split
  · exact T.note hs _ _
  · rename_i l rest hl
    refine T.after (T.modifyFrame hs _) ?_ _ _
    cases l with
    | object o => exact Task.all_isNeutral_toList_drop o
    | _ => rfl

theorem setParentStep (hs : P w) (h p : String) : P (w.setParentStep h p) := by
  unfold World.setParentStep
  split
  · rename_i w₁ hh
    exact T.note (T.handle hs hh) _ _
  · rename_i r w₁ hh
    have h₁ := T.handle hs hh
    split
    · rename_i w₂ hp
      exact T.after (T.handle h₁ hp) rfl _ _
    · rename_i q w₂ hp
      have h₂ := T.handle h₁ hp
      split
      · rename_i old w₃ ho
        refine T.after (T.setParent h₂ ho) ?_ _ _
        rw [List.all_append, Task.all_isNeutral_toList_drop]
        rfl
      · rename_i e w₃ he
        exact T.after (T.setParent h₂ he) rfl _ _

theorem lookStep (hs : P w) (name h : String) (look : Ref → World → Datum) :
    P (w.lookStep name h look) := by
  unfold World.lookStep
  split
  · rename_i w₁ hp
    exact T.note (T.peek hs hp) _ _
  · rename_i r w₁ hp
    exact T.note (T.peek hs hp) _ _

theorem eqStep (hs : P w) (h b : String) : P (w.eqStep h b) := by
  unfold World.eqStep
  split
  · rename_i w₁ hp
    exact T.note (T.peek hs hp) _ _
  · rename_i r w₁ hp
    exact T.lookStep (T.peek hs hp) _ _ _

theorem ownerStep (hs : P w) (h : String) : P (w.ownerStep h) := by
  unfold World.ownerStep
  split
  · rename_i w₁ hp
    exact T.note (T.peek hs hp) _ _
  · rename_i r w₁ hp
    split
    · rename_i e w₂ ho
      exact T.note (T.ownerOf (T.peek hs hp) ho) _ _
    · rename_i x w₂ ho
      exact T.note (T.level (T.ownerOf (T.peek hs hp) ho) .touchHome) _ _

theorem debugStep (hs : P w) (h : String) (hub : Option String) : P (w.debugStep h hub) := by
  unfold World.debugStep
  split
  · rename_i w₁ hp
    exact T.note (T.peek hs hp) _ _
  · rename_i r w₁ hp
    exact T.note (T.level (T.peek hs hp) .touchHome) _ _

theorem currentStep (hs : P w) : P w.currentStep := by
  unfold World.currentStep
  split
  · rename_i e w₁ hh
    exact T.note (T.homeHub hs hh) _ _
  · rename_i h w₁ hh
    exact T.note (T.homeHub hs hh) _ _

theorem hubStep (hs : P w) (name : String) (hub : Option String) {run : HubId → World → World}
    (hr : ∀ h w', P w' → P (run h w')) : P (w.hubStep name hub run) := by
  unfold World.hubStep
  split
  · rename_i e w₁ hh
    exact T.note (T.hubFor hs hh) _ _
  · rename_i h w₁ hh
    exact hr h w₁ (T.hubFor hs hh)

theorem hubNote (hs : P w) (name : String) (hub : Option String) (d : HubId → World → Datum) :
    P (w.hubStep name hub fun h w => w.note name [d h w]) :=
  T.hubStep hs name hub fun _ _ h => T.note h _ _

theorem hubGreenletStep (hs : P w) (name as_ : String) (hub : Option String) (pick : Hub → Ref) :
    P (w.hubGreenletStep name as_ hub pick) :=
  T.hubStep hs name hub fun h w' hw => by
    simpa using T.bindingHandle (T.level hw (.retain (pick (w'.hub h)))) as_ _ [] rfl name _

theorem pendingTakeStep (hs : P w) : P w.pendingTakeStep := by
  unfold World.pendingTakeStep
  split
  · rename_i w₁ ht
    exact T.note (T.takePending hs ht) _ _
  · rename_i r w₁ ht
    exact T.after (T.takePending hs ht) rfl _ _

theorem pendingClearStep (hs : P w) : P w.pendingClearStep :=
  T.after (T.level hs .takePending) (Task.all_isNeutral_toList_drop _) _ _

theorem pendingFetchStep (hs : P w) (out : String) : P (w.pendingFetchStep out) := by
  unfold World.pendingFetchStep
  simp only
  split
  · rename_i w₁ ht
    have h₁ : P { w₁ with outs := w₁.outs.insert out (w.outs.find? out).join } :=
      T.level (T.takePending hs ht) (.of_eq rfl rfl rfl)
    exact T.note h₁ _ _
  · rename_i r w₁ ht
    exact T.bindingOut (T.takePending hs ht) _ _ _ _

theorem objectStep (hs : P w) (as_ : String) (v : Script.ValueSpec) : P (w.objectStep as_ v) :=
  T.bindingObject (T.level hs (.eval _ v)) _ _ _ _

theorem objectCopyStep (hs : P w) (name o as_ : String) : P (w.objectCopyStep name o as_) := by
  unfold World.objectCopyStep
  split
  · exact T.note hs _ _
  · exact T.bindingObject (T.level hs (.retainObj _)) _ _ _ _

theorem objectDropStep (hs : P w) (o : String) : P (w.objectDropStep o) := by
  unfold World.objectDropStep
  split
  · rename_i w₁ ht
    exact T.note (T.takeObject hs ht) _ _
  · rename_i x w₁ ht
    exact T.after (T.takeObject hs ht) (Task.all_isNeutral_toList_drop x) _ _

theorem objectHoldStep (hs : P w) (o : String) : P (w.objectHoldStep o) := by
  unfold World.objectHoldStep
  split
  · rename_i w₁ ht
    exact T.note (T.takeObject hs ht) _ _
  · rename_i x w₁ ht
    exact T.note (T.pushLocal (T.takeObject hs ht) _) _ _

theorem objectInfoStep (hs : P w) (o : String) : P (w.objectInfoStep o) := by
  unfold World.objectInfoStep
  split <;> exact T.note hs _ _

theorem objectEqStep (hs : P w) (o b : String) : P (w.objectEqStep o b) := by
  unfold World.objectEqStep
  split <;> exact T.note hs _ _

theorem viewObject (hs : P w) (o : Obj) (k : Kind) (fits : Bool) : P (w.viewObject o k fits).2 := by
  unfold World.viewObject
  split
  · exact hs
  · exact T.level hs (.raise _)

theorem objectGetStep (hs : P w) (o : String) (kind : Option Kind) (view : View) :
    P (w.objectGetStep o kind view) := by
  unfold World.objectGetStep
  split
  · exact T.note hs _ _
  · exact T.note hs _ _
  · cases view with
    | exact | family => exact T.note (T.viewObject hs _ _ _) _ _
    | _ => exact T.note hs _ _

theorem objectIntoStep (hs : P w) (o : String) (kind : Option Kind) (family : Bool) :
    P (w.objectIntoStep o kind family) := by
  unfold World.objectIntoStep
  split
  · exact T.note hs _ _
  · exact T.note hs _ _
  · rename_i x k _
    have h₁ : P { w with objects := w.objects.erase o } := T.level hs (.of_eq rfl rfl rfl)
    have h₂ := T.after (T.level h₁ (.raise (w.mismatch x k))) (Task.all_isNeutral_toList_drop x)
      "obj_into" (w.mismatch x k).datum
    cases family with
    | false =>
      simp only [Bool.false_eq_true, if_false]
      split
      · exact T.note hs _ _
      · exact h₂
    | true =>
      simp only [if_true]
      split
      · exact T.note hs _ _
      · exact h₂

theorem outPutStep (hs : P w) (o out : String) : P (w.outPutStep o out) := by
  unfold World.outPutStep
  split
  · rename_i w₁ ht
    exact T.note (T.takeObject hs ht) _ _
  · rename_i x w₁ ht
    exact T.bindingOut (T.takeObject hs ht) _ _ _ _

theorem outTakeStep (hs : P w) (out as_ : String) : P (w.outTakeStep out as_) := by
  unfold World.outTakeStep
  split
  · exact T.note hs _ _
  · have h₁ : P { w with outs := w.outs.insert out none } := T.level hs (.of_eq rfl rfl rfl)
    exact T.bindingObject h₁ _ _ _ _

theorem outDropStep (hs : P w) (out : String) : P (w.outDropStep out) := by
  unfold World.outDropStep
  split
  · exact T.note hs _ _
  · rename_i x _
    have h₁ : P { w with outs := w.outs.erase out } := T.level hs (.of_eq rfl rfl rfl)
    exact T.after h₁ (Task.all_isNeutral_toList_drop x) _ _

theorem argsSplitStep (hs : P w) : P w.argsSplitStep :=
  T.after (T.swapLast hs _) (Task.all_isNeutral_dropArgs _) _ _

theorem modifyHub (hs : P w) (h : HubId) (f : Hub → Hub) : P (w.modifyHub h f) :=
  T.level hs (.of_eq rfl rfl rfl)

theorem modifyStats (hs : P w) (h : HubId) (f : Stats → Stats) : P (w.modifyStats h f) :=
  T.modifyHub hs h _

theorem modifyObject (hs : P w) (r : Ref) (f : Object → Object) : P (w.modifyObject r f) :=
  T.level hs (.of_eq rfl rfl rfl)

theorem modifyGreenlet (hs : P w) (r : Ref) (f : Greenlet → Greenlet) : P (w.modifyGreenlet r f) :=
  T.modifyObject hs r _

theorem write (hs : P w) (l : LogLevel) (m : String) : P (w.write l m) :=
  T.level hs (.of_eq rfl rfl rfl)

theorem modifyThread (hs : P w) (f : Thread → Thread) (hf : ∀ t, (f t).stack = t.stack) :
    P (w.modifyThread f) :=
  T.level hs (.modifyThread hf)

theorem defer (hs : P w) (h : HubId) (r : Ref) : P (w.defer h r) :=
  T.modifyStats (T.modifyHub (T.write hs .debug _) h _) h fun s => { s with deferred := s.deferred + 1 }

theorem released (hs : P w) (h : HubId) (r : Ref) : P (w.released h r) := by
  refine T.neutral (T.modifyStats (T.modifyHub hs h _) h _) ?_
  rw [List.all_append, Task.all_isNeutral_dropOutgoing]
  rfl

theorem leaveHub (hs : P w) (h : HubId) : P (w.leaveHub h) := by
  have h₁ : P (w.modifyHub h fun s => { s with holders := s.holders - 1 }) := T.modifyHub hs _ _
  unfold World.leaveHub
  simp only
  split
  · exact h₁
  · exact T.neutral h₁ rfl

theorem dropHubFields (hs : P w) (h : HubId) : P (w.dropHubFields h) := by
  refine T.neutral (T.modifyHub hs h _) ?_
  rw [List.all_append, List.all_append, Task.all_isNeutral_dropOutgoing,
    Task.all_isNeutral_map_drop]
  rfl

theorem exitSlots (hs : P w) : P w.exitSlots := by
  unfold World.exitSlots
  simp only
  split
  · exact hs
  · refine T.neutral (T.modifyThread hs _ ?_) ?_
    · exact fun _ => rfl
    · rw [List.all_append, Task.all_isNeutral_toList_drop]
      rfl
  · refine T.neutral (T.modifyThread hs _ ?_) ?_
    · exact fun _ => rfl
    · rw [List.all_append]
      cases w.thread.home.get? <;> rfl

theorem exitThread (hs : P w) : P w.exitThread := by
  have h₁ : P (if w.active = 1 then { w with exitFrom := some w.events.length } else w) := by
    split
    · exact T.level hs (.of_eq rfl rfl rfl)
    · exact hs
  exact T.neutral h₁ rfl

theorem postResult (hs : P w) (h : HubId) (f : FiberId) (p : Payload) : P (w.postResult h f p) := by
  unfold World.postResult
  split
  · exact T.neutral hs (Task.all_isNeutral_dropPayload p)
  · exact T.neutral (T.modifyHub hs h fun s => { s with outgoing := some (.result p) })
      (Task.all_isNeutral_dropOutgoing _)

theorem registerSwitch (hs : P w) (h : HubId) (target : Ref) : P (w.registerSwitch h target).2 := by
  unfold World.registerSwitch
  simp only
  split
  · exact T.level hs (.raise _)
  · have h₁ := T.modifyHub (T.modifyObject hs target fun o => { o with count := o.count + 1 }) h
      fun s => { s with current := target }
    have h₂ : P (if (((w.retain target).modifyHub h fun s =>
        { s with current := target }).greenlet (w.hub h).current).state == .running
      then ((w.retain target).modifyHub h fun s => { s with current := target }).setState
        (w.hub h).current .suspended
      else (w.retain target).modifyHub h fun s => { s with current := target }) := by
      split
      · exact T.modifyGreenlet h₁ _ _
      · exact h₁
    exact T.write (T.modifyStats (T.modifyGreenlet h₂ _ _) _ _) _ _

theorem nextLive (hs : P w) (h : HubId) (r : Ref) : P (w.nextLive h r).2 := by
  unfold World.nextLive
  simp only
  split
  · exact T.modifyObject hs _ _
  · exact T.modifyObject (T.write hs _ _) _ _

theorem registerSwitchStep (hs : P w) (name : String) (hub : Option String) :
    P (w.registerSwitchStep name hub) := by
  refine T.hubStep hs _ hub fun h w' hw => ?_
  split
  · rename_i w₁ hh
    exact T.note (T.handle hw hh) _ _
  · rename_i r w₁ hh
    have h₁ := T.registerSwitch (T.handle hw hh) h r
    split
    · rename_i e w₂ hr
      rw [hr] at h₁
      exact T.after h₁ rfl _ _
    · rename_i prev w₂ hr
      rw [hr] at h₁
      exact T.after h₁ rfl _ _

theorem deferStep (hs : P w) (name : String) (hub : Option String) : P (w.deferStep name hub) := by
  refine T.hubStep hs _ hub fun h w' hw => ?_
  split
  · rename_i w₁ hh
    exact T.note (T.handle hw hh) _ _
  · rename_i r w₁ hh
    exact T.after (T.defer (T.level (T.handle hw hh) (.retain r)) h r) rfl _ _

theorem teardownStep (hs : P w) (hub : Option String) : P (w.teardownStep hub) :=
  T.hubStep hs _ hub fun h _ hw => T.after (T.modifyHub hw h _) rfl _ _

theorem newHubStep (hs : P w) (as_ : String) : P (w.newHubStep as_) := by
  have h₁ : P { w.createHub.2 with named := w.createHub.2.named.insert as_ w.createHub.1 } :=
    T.level hs (.of_eq rfl rfl rfl)
  have hn (old : Option HubId) : (old.map Task.leaveHub).toList.all Task.isNeutral = true := by
    cases old <;> rfl
  exact T.after h₁ (hn _) _ _

theorem dropHubStep (hs : P w) (hub : String) : P (w.dropHubStep hub) := by
  unfold World.dropHubStep
  split
  · exact T.note hs _ _
  · have h₁ : P { w with named := w.named.erase hub } := T.level hs (.of_eq rfl rfl rfl)
    exact T.after h₁ rfl _ _

theorem endHandle (hs : P w) (name : String) : P (w.endHandle name) :=
  T.neutral (T.level (T.level hs (.takeHandle name)) (.event _ _)) (Task.all_isNeutral_toList_drop _)

theorem endObjects (hs : P w) : P w.endObjects := by
  unfold World.endObjects
  split
  · exact hs
  · rename_i name o objects _
    have h₁ : P { w with objects } := T.level hs (.of_eq rfl rfl rfl)
    refine T.neutral (T.level h₁ (.event _ _)) ?_
    rw [List.all_append, Task.all_isNeutral_toList_drop]
    rfl

theorem endOuts (hs : P w) : P w.endOuts := by
  unfold World.endOuts
  split
  · exact hs
  · rename_i name o outs _
    have h₁ : P { w with outs } := T.level hs (.of_eq rfl rfl rfl)
    refine T.neutral h₁ ?_
    rw [List.all_append, Task.all_isNeutral_toList_drop]
    rfl

theorem endStats (hs : P w) : P w.endStats := by
  unfold World.endStats
  split
  · exact hs
  · exact T.level hs (.event _ _)

theorem endHubs (hs : P w) : P w.endHubs := by
  unfold World.endHubs
  split
  · exact hs
  · rename_i name h named _
    have h₁ : P { w with named } := T.level hs (.of_eq rfl rfl rfl)
    exact T.neutral (T.level h₁ (.event _ _)) rfl

theorem print (hs : P w) (line : String) : P (w.print line) := T.level hs (.of_eq rfl rfl rfl)

theorem rallyFinish (hs : P w) (pong : Ref) : P (Rally.finish pong w) := by
  unfold Rally.finish
  simp only
  split
  · rename_i e w₁ hh
    exact T.homeHub (T.print hs _) hh
  · rename_i h w₁ hh
    exact T.print (T.print (T.print (T.homeHub (T.print hs _) hh) _) _) _

end Tolerant

end World

end Switchyard
