import Switchyard.Proofs.Pending.Raising

/-!
# Errors of scripts

A step of a script puts an answer with an error on the stack only if the thread has no hub to switch
on. All other errors of a step are its own result.
-/

namespace Switchyard

namespace World.Tacit

variable {e : SwitchError} {w₀ w w' : World}

theorem callSwitch (h : Tacit e w₀ w) (hs : SameSlot w₀ w) (name : String) (target : Ref)
    (hub : Option String) (catches : Option Bool) (p : Payload) :
    Gives e w₀ (w.callSwitch name target hub catches p) := by
  unfold World.callSwitch
  split
  · rename_i i v hh
    exact ((tolerant.modifyHub (tolerant.hubFor h hh) i _).silent rfl).gives
  · rename_i x v hh
    exact answering (tolerant.hubFor h hh) (.hubFor hs h.seated hh)
      (Task.all_isSilent_of_neutral (Task.all_isNeutral_dropPayload p)) rfl

theorem switched (h : Tacit e w₀ w) (name : String) (target : Ref) (catches : Option Bool)
    (outcome : Except SwitchError (Args Obj)) :
    Tacit e w₀ (w.switched name target catches outcome) := by
  unfold World.switched
  cases outcome with
  | ok a =>
    refine tolerant.after (tolerant.swapLast h a) ?_ _ _
    rw [List.all_append, Task.all_isNeutral_dropArgs]
    rfl
  | error x =>
    refine h.silent ?_
    split <;> rfl

theorem throwStep (h : Tacit e w₀ w) (hs : SameSlot w₀ w) (name : String) (f : Failure)
    (hub : Option String) (catches : Option Bool) :
    Gives e w₀ (w.throwStep name f hub catches) := by
  unfold World.throwStep
  split
  · rename_i v hh
    exact (tolerant.note (tolerant.handle h hh) _ _).gives
  · rename_i r v hh
    exact (tolerant.handle h hh).callSwitch (hs.trans (.handle h.seated hh)) _ _ _ _ _

theorem bindStep (h : Tacit e w₀ w) (at_ : Selector) (as_ : String) (catches : Option Bool) :
    Tacit e w₀ (w.bindStep at_ as_ catches) := by
  have refused (o : Obj) : Tacit e w₀ (bindStep.refused catches o w) := by
    unfold bindStep.refused
    refine (tolerant.note (h.level (.raise _)) _ _).silent ?_
    split <;> rfl
  unfold World.bindStep
  split
  · exact tolerant.note h _ _
  · split
    · rename_i r _
      split
      · simpa using tolerant.bindingHandle (h.level (.retain r)) as_ r [] rfl "bind" .ok
      · exact refused _
    · exact refused _

theorem teardownStep (h : Tacit e w₀ w) (hub : Option String) : Tacit e w₀ (w.teardownStep hub) := by
  unfold World.teardownStep World.hubStep
  split
  · rename_i x v hh
    exact tolerant.note (tolerant.hubFor h hh) _ _
  · rename_i i v hh
    exact (tolerant.modifyHub (tolerant.hubFor h hh) i _).silent rfl

theorem newHubStep (h : Tacit e w₀ w) (as_ : String) : Tacit e w₀ (w.newHubStep as_) := by
  have h₁ : Tacit e w₀ w.createHub.2 := h.level (.of_eq rfl rfl rfl)
  have h₂ : Tacit e w₀ { w.createHub.2 with
      named := w.createHub.2.named.insert as_ w.createHub.1 } := h₁.level (.of_eq rfl rfl rfl)
  have leaving (o : Option HubId) : (o.map Task.leaveHub).toList.all Task.isNeutral = true := by
    cases o <;> rfl
  exact tolerant.after h₂ (leaving _) _ _

theorem dropHubStep (h : Tacit e w₀ w) (hub : String) : Tacit e w₀ (w.dropHubStep hub) := by
  unfold World.dropHubStep
  split
  · exact tolerant.note h _ _
  · have h₁ : Tacit e w₀ { w with named := w.named.erase hub } := h.level (.of_eq rfl rfl rfl)
    exact h₁.silent rfl

theorem registerSwitchStep (h : Tacit e w₀ w) (name : String) (hub : Option String) :
    Tacit e w₀ (w.registerSwitchStep name hub) := by
  unfold World.registerSwitchStep World.hubStep
  split
  · rename_i x v hh
    exact tolerant.note (tolerant.hubFor h hh) _ _
  · rename_i i v hh
    have h₁ := tolerant.hubFor h hh
    simp only
    split
    · rename_i v₁ hn
      exact tolerant.note (tolerant.handle h₁ hn) _ _
    · rename_i r v₁ hn
      have h₂ := tolerant.registerSwitch (tolerant.handle h₁ hn) i r
      split
      · rename_i x v₂ hr
        rw [hr] at h₂
        exact tolerant.after h₂ rfl _ _
      · rename_i prev v₂ hr
        rw [hr] at h₂
        exact tolerant.after h₂ rfl _ _

theorem deferStep (h : Tacit e w₀ w) (name : String) (hub : Option String) :
    Tacit e w₀ (w.deferStep name hub) := by
  unfold World.deferStep World.hubStep
  split
  · rename_i x v hh
    exact tolerant.note (tolerant.hubFor h hh) _ _
  · rename_i i v hh
    have h₁ := tolerant.hubFor h hh
    simp only
    split
    · rename_i v₁ hn
      exact tolerant.note (tolerant.handle h₁ hn) _ _
    · rename_i r v₁ hn
      exact tolerant.after (tolerant.defer (tolerant.modifyObject (tolerant.handle h₁ hn) _ _) _ _)
        rfl _ _

theorem built (h : Tacit e w₀ w) (hs : SameSlot w₀ w) (a : Args Obj) (purpose : Purpose) :
    Gives e w₀ (w.built a purpose) := by
  cases purpose with
  | switch target hub catches => exact h.callSwitch hs _ _ _ _ _
  | replaceLast | extendLast =>
    exact (tolerant.after (tolerant.swapLast h a) (Task.all_isNeutral_dropArgs _) _ _).gives
  | ret => exact ((tolerant.note h _ _).silent rfl).gives

theorem build (h : Tacit e w₀ w) (hs : SameSlot w₀ w) (acc : Args Obj)
    (positional : List Script.ValueSpec) (keywords : List (String × Script.ValueSpec))
    (purpose : Purpose) : Gives e w₀ (w.build acc positional keywords purpose) := by
  unfold World.build
  simp only
  split
  · exact ((h.level (.eval _ _)).silent rfl).gives
  · refine ((h.level (.eval _ _)).silent ?_).gives
    rw [List.all_append, Task.all_isSilent_of_neutral (Task.all_isNeutral_toList_drop _)]
    rfl
  · exact h.built hs acc purpose

theorem buildArgs (h : Tacit e w₀ w) (hs : SameSlot w₀ w) (a : Script.ArgsSpec)
    (purpose : Purpose) : Gives e w₀ (w.buildArgs a purpose) := by
  cases a with
  | received => exact (h.level (.retainAll _)).built (hs.trans (.retainAll _)) _ purpose
  | built positional keywords => exact (h.silent rfl).gives

theorem switchStep (h : Tacit e w₀ w) (hs : SameSlot w₀ w) (name : String)
    (args : Script.ArgsSpec) (hub : Option String) (catches : Option Bool) :
    Gives e w₀ (w.switchStep name args hub catches) := by
  unfold World.switchStep
  split
  · rename_i v hh
    exact (tolerant.note (tolerant.handle h hh) _ _).gives
  · rename_i r v hh
    exact (tolerant.handle h hh).buildArgs (hs.trans (.handle h.seated hh)) _ _

theorem nestStep (h : Tacit e w₀ w) (how : Nesting) (steps : List Script.Step) :
    Tacit e w₀ (w.nestStep how steps) :=
  (tolerant.swapLast h .empty).silent rfl

theorem deepStep (h : Tacit e w₀ w) (n : Nat) (steps : List Script.Step) :
    Tacit e w₀ (w.deepStep n steps) := by
  cases n <;> exact h.nestStep _ _

theorem raiseErrorStep (h : Tacit e w₀ w) (x : SwitchError) (register : Bool) :
    Tacit e w₀ (w.raiseErrorStep x register) := by
  unfold World.raiseErrorStep
  split
  · exact (tolerant.note (h.level (.raise x)) _ _).silent rfl
  · exact (tolerant.note h _ _).silent rfl

theorem spawnStep (h : Tacit e w₀ w) (steps : List Script.Step) :
    Tacit e w₀ (w.spawnStep steps) := by
  have hj : Tacit e w₀ (w.push [.join (w.threads.size + 1)]) := h.silent rfl
  refine ⟨?_, hj.spends, fun i => ?_⟩
  · constructor <;> simp [World.spawnStep, World.push, World.modifyThread]
  · have hc := hj.count i
    unfold World.returning at hc ⊢
    simp only [World.stackAt, World.spawnStep, Array.getElem?_push]
    split
    · exact .inl (Nat.zero_le _)
    · exact hc

theorem runStep (h : Tacit e w₀ w) (hs : SameSlot w₀ w) (st : Script.Step) :
    Gives e w₀ (w.runStep st) := by
  cases st with
  | create => exact (tolerant.createStep h ..).gives
  | switch => exact h.switchStep hs ..
  | throw => exact h.throwStep hs ..
  | drop => exact (tolerant.dropStep h _).gives
  | clone => exact (tolerant.cloneStep h ..).gives
  | hold => exact (tolerant.holdStep h _).gives
  | keep => exact (tolerant.keepStep h _).gives
  | canary c => exact (tolerant.note (tolerant.pushLocal h (.canary c)) _ _).gives
  | pop => exact (tolerant.popStep h).gives
  | setParent => exact (tolerant.setParentStep h ..).gives
  | info | refs => exact (tolerant.lookStep h ..).gives
  | eq => exact (tolerant.eqStep h ..).gives
  | owner => exact (tolerant.ownerStep h _).gives
  | debug => exact (tolerant.debugStep h ..).gives
  | current => exact (tolerant.currentStep h).gives
  | bind => exact (h.bindStep ..).gives
  | stats hub => exact (tolerant.hubNote h "stats" hub fun h w => (w.hub h).stats.datum).gives
  | counts hub => exact (tolerant.hubNote h "counts" hub fun h w => countsDatum (w.hub h)).gives
  | collect => exact (robust.collectStep h _).gives
  | teardown => exact (h.teardownStep _).gives
  | newHub => exact (h.newHubStep _).gives
  | dropHub => exact (h.dropHubStep _).gives
  | hubMain | hubCurrent => exact (tolerant.hubGreenletStep h ..).gives
  | registerSwitch => exact (h.registerSwitchStep ..).gives
  | defer => exact (h.deferStep ..).gives
  | hasHub => exact (tolerant.note (h.level .touchHome) _ _).gives
  | lock => exact (tolerant.note h _ _).gives
  | pending => exact (tolerant.note (h.level .touchPending) _ _).gives
  | pendingTake => exact (tolerant.pendingTakeStep h).gives
  | pendingClear => exact (tolerant.pendingClearStep h).gives
  | pendingSet f => exact (tolerant.note (h.level (.registerFailure f)) _ _).gives
  | pendingSetError x => exact (tolerant.note (h.level (.raise x)) _ _).gives
  | pendingFetch => exact (tolerant.pendingFetchStep h _).gives
  | object => exact (tolerant.objectStep h ..).gives
  | objectClone | objectReborrow => exact (tolerant.objectCopyStep h ..).gives
  | objectDrop => exact (tolerant.objectDropStep h _).gives
  | objectHold => exact (tolerant.objectHoldStep h _).gives
  | objectInfo => exact (tolerant.objectInfoStep h _).gives
  | objectEq => exact (tolerant.objectEqStep h ..).gives
  | objectGet => exact (tolerant.objectGetStep h ..).gives
  | objectInto => exact (tolerant.objectIntoStep h ..).gives
  | derefNull => exact (tolerant.fail h _).gives
  | outPut => exact (tolerant.outPutStep h ..).gives
  | outTake => exact (tolerant.outTakeStep h ..).gives
  | outInfo => exact (tolerant.note h _ _).gives
  | outDrop => exact (tolerant.outDropStep h _).gives
  | args a => exact h.buildArgs hs a .replaceLast
  | argsAdd => exact ((tolerant.swapLast h .empty).silent rfl).gives
  | argsInfo | argsGet => exact (tolerant.note h _ _).gives
  | argsSplit => exact (tolerant.argsSplitStep h).gives
  | ret a => exact h.buildArgs hs a .ret
  | raise f => exact ((tolerant.note h _ _).silent rfl).gives
  | raiseError => exact (h.raiseErrorStep ..).gives
  | panic => exact (tolerant.fail (h.level (.event _ _)) _).gives
  | nest => exact (h.nestStep ..).gives
  | deep => exact (h.deepStep ..).gives
  | loop => exact (h.silent rfl).gives
  | ifDead name => exact ((h.level (.peek name)).silent rfl).gives
  | note | unknown => exact (tolerant.note h _ _).gives
  | spawn steps => exact (h.spawnStep steps).gives

theorem runSteps (h : Tacit e w₀ w) (hs : SameSlot w₀ w) (rest : List Script.Step) :
    Gives e w₀ (w.runSteps rest) := by
  cases rest with
  | nil => exact h.gives
  | cons st rest =>
    unfold World.runSteps
    simp only
    split
    · exact (h.silent rfl).gives
    · rename_i fuel _
      have h₁ : Tacit e w₀ { w with fuel } := h.level (.of_eq rfl rfl rfl)
      have hs₁ : SameSlot w₀ { w with fuel } := ⟨hs.active, hs.pending⟩
      have h₂ : Tacit e w₀ ({ w with fuel }.push [.steps rest]) := h₁.silent rfl
      exact h₂.runStep (hs₁.trans (.modifyThread h₁.seated fun _ => rfl)) st

theorem rallyCall (h : Tacit e w₀ w) (hs : SameSlot w₀ w) (target : Ref) (p : Payload)
    (next : Rally) : Gives e w₀ (Rally.call target p next w) := by
  unfold Rally.call
  split
  · rename_i i v hh
    exact ((tolerant.modifyHub (tolerant.homeHub h hh) i _).silent rfl).gives
  · rename_i x v hh
    exact answering (tolerant.homeHub h hh) (.homeHub hs h.seated hh)
      (Task.all_isSilent_of_neutral (Task.all_isNeutral_dropPayload p)) rfl

theorem rallyBegin (h : Tacit e w₀ w) (hs : SameSlot w₀ w) (rounds : Int64) :
    Gives e w₀ (Rally.begin rounds w) := by
  unfold Rally.begin
  have h₀ := tolerant.print (tolerant.print h "=== Greenlet Ping-Pong ===") ""
  have hs₀ : SameSlot w₀ ((w.print "=== Greenlet Ping-Pong ===").print "") :=
    hs.trans (.of_threads rfl rfl)
  simp only
  split
  · rename_i x v hh
    exact (tolerant.homeHub h₀ hh).gives
  · rename_i i v hh
    have h₁ := ((tolerant.homeHub h₀ hh).level (.retain (v.hub i).current)).level
      (.retain (v.hub i).current)
    have hs₁ : SameSlot w₀ ((v.retain (v.hub i).current).retain (v.hub i).current) :=
      (hs₀.trans (.homeHub h₀.seated hh)).trans (.of_threads rfl rfl)
    split
    · rename_i x v₂ hc
      exact (tolerant.neutral (tolerant.createGreenlet h₁ hc) rfl).gives
    · rename_i pong v₂ hc
      have h₂ := (tolerant.createGreenlet h₁ hc).level (.retain pong)
      have hs₂ : SameSlot w₀ (v₂.retain pong) :=
        (hs₁.trans (.createGreenlet h₁.seated hc)).trans (.of_threads rfl rfl)
      split
      · rename_i x v₃ hc'
        exact (tolerant.neutral (tolerant.createGreenlet h₂ hc') rfl).gives
      · rename_i ping v₃ hc'
        have h₃ : Tacit e w₀ (v₃.numberArgs rounds).2 :=
          (tolerant.createGreenlet h₂ hc').level (.of_eq rfl rfl rfl)
        have hs₃ : SameSlot w₀ (v₃.numberArgs rounds).2 :=
          (hs₂.trans (.createGreenlet h₂.seated hc')).trans (.of_threads rfl rfl)
        exact h₃.rallyCall hs₃ ping _ _

theorem rallyRelay (h : Tacit e w₀ w) (hs : SameSlot w₀ w) (main pong ping : Ref)
    (a : Args Obj) : Gives e w₀ (Rally.relay main pong ping a w) := by
  unfold Rally.relay
  simp only
  split
  · exact (tolerant.print (tolerant.print h _) _).rallyCall (hs.trans (.of_threads rfl rfl)) pong _ _
  · exact (tolerant.print h _).rallyCall (hs.trans (.of_threads rfl rfl)) ping _ _

theorem rallyRun (h : Tacit e w₀ w) (hs : SameSlot w₀ w) (r : Rally) : Gives e w₀ (r.run w) := by
  cases r with
  | start rounds => exact h.rallyBegin hs rounds
  | hit main args =>
    have h₁ : Tacit e w₀ ((w.write .info ("pong got " ++
        toString ((w.number? args).getD 0).toInt)).numberArgs ((w.number? args).getD 0 + 1)).2 :=
      h.level (.of_eq rfl rfl rfl)
    exact h₁.rallyCall (hs.trans (.of_threads rfl rfl)) main _ _
  | serve pong args rounds left ball =>
    simp only [Rally.run]
    have h₁ : Tacit e w₀ (w.numberArgs ball).2 := h.level (.of_eq rfl rfl rfl)
    split
    · have h₂ : Tacit e w₀ ((w.numberArgs ball).2.alloc (.i64 rounds)).2 :=
        h₁.level (.of_eq rfl rfl rfl)
      refine (h₂.silent ?_).gives
      rw [List.all_append, Task.all_isSilent_of_neutral (Task.all_isNeutral_dropArgs args)]
      rfl
    · exact h₁.rallyCall (hs.trans (.of_threads rfl rfl)) pong _ _
  | _ => exact (tolerant.neutral h (Task.all_isNeutral_drops _)).gives

theorem rallyAnswered (h : Tacit e w₀ w) (hs : SameSlot w₀ w) (r : Rally)
    (outcome : Except SwitchError (Args Obj)) : Gives e w₀ (r.answered outcome w) := by
  have drops {v : World} (hv : Tacit e w₀ v) (ts : List Task) (ht : ts.all Task.isSilent = true)
      (r : Rally) : Gives e w₀ (v.push (ts ++ r.drops)) := by
    refine (hv.silent ?_).gives
    rw [List.all_append, ht, Task.all_isSilent_of_neutral (Task.all_isNeutral_drops r)]
    rfl
  have args (a : Args Obj) := Task.all_isSilent_of_neutral (Task.all_isNeutral_dropArgs a)
  have going (a : Args Obj) (t : Task) (ht : t.isSilent = true) :
      Gives e w₀ (w.push (Task.dropArgs a ++ [t])) := by
    refine (h.silent ?_).gives
    rw [List.all_append, args]
    simp [ht]
  have ending (r : Rally) (p : Payload) : Gives e w₀ (w.push (r.drops ++ [.result p])) := by
    refine (h.silent ?_).gives
    rw [List.all_append, Task.all_isSilent_of_neutral (Task.all_isNeutral_drops r)]
    rfl
  cases outcome with
  | ok a =>
    cases r with
    | relayed main pong ping => exact h.rallyRelay hs main pong ping a
    | stopped main pong ping reply =>
      exact drops (tolerant.rallyFinish h pong) _ (args a) (.stopped main pong ping reply)
    | hitBack main old => exact going old _ rfl
    | served pong old rounds left ball => exact going a _ rfl
    | start | hit | serve => exact drops h _ (args a) _
  | error x =>
    cases r with
    | hitBack | served => exact ending _ _
    | _ => exact (tolerant.neutral h (Task.all_isNeutral_drops _)).gives

end World.Tacit

end Switchyard
