import Switchyard.Proofs.Signals.Control
import Switchyard.Proofs.Signals.Script

/-!
# Tasks and signals

Every task that runs a piece of a script keeps the control stack in order, and so does every task
that hands a signal on.
-/

namespace Switchyard

namespace World

namespace Stands

variable {w w' : World} {c c' : Context}

theorem runStep (hs : w.Stands .frame) (st : Script.Step) :
    ∃ c, (w.runStep st).Stands c := by
  have here {w' : World} (h : w'.Stands .frame) : ∃ c, w'.Stands c := ⟨.frame, h⟩
  cases st with
  | registerSwitch => exact here (tolerant.registerSwitchStep hs ..)
  | defer => exact here (tolerant.deferStep hs ..)
  | teardown => exact here (tolerant.teardownStep hs _)
  | newHub => exact here (tolerant.newHubStep hs _)
  | dropHub => exact here (tolerant.dropHubStep hs _)
  | create => exact here (tolerant.createStep hs ..)
  | switch => exact hs.switchStep ..
  | throw => exact hs.throwStep ..
  | drop => exact here (tolerant.dropStep hs _)
  | clone => exact here (tolerant.cloneStep hs ..)
  | hold => exact here (tolerant.holdStep hs _)
  | keep => exact here (tolerant.keepStep hs _)
  | canary c => exact here (tolerant.note (tolerant.pushLocal hs (.canary c)) _ _)
  | pop => exact here (tolerant.popStep hs)
  | setParent => exact here (tolerant.setParentStep hs ..)
  | info | refs => exact here (tolerant.lookStep hs ..)
  | eq => exact here (tolerant.eqStep hs ..)
  | owner => exact here (tolerant.ownerStep hs _)
  | debug => exact here (tolerant.debugStep hs ..)
  | current => exact here (tolerant.currentStep hs)
  | bind => exact here (hs.bindStep ..)
  | stats hub => exact here (tolerant.hubNote hs "stats" hub fun h w => (w.hub h).stats.datum)
  | counts hub => exact here (tolerant.hubNote hs "counts" hub fun h w => countsDatum (w.hub h))
  | collect => exact robust.collectStep ⟨_, hs⟩ _
  | hubMain | hubCurrent => exact here (tolerant.hubGreenletStep hs ..)
  | hasHub => exact here (tolerant.note (hs.level .touchHome) _ _)
  | lock => exact here (tolerant.note hs _ _)
  | pending => exact here (tolerant.note (hs.level .touchPending) _ _)
  | pendingTake => exact here (tolerant.pendingTakeStep hs)
  | pendingClear => exact here (tolerant.pendingClearStep hs)
  | pendingSet f => exact here (tolerant.note (hs.level (.registerFailure f)) _ _)
  | pendingSetError e => exact here (tolerant.note (hs.level (.raise e)) _ _)
  | pendingFetch => exact here (tolerant.pendingFetchStep hs _)
  | object => exact here (tolerant.objectStep hs ..)
  | objectClone | objectReborrow => exact here (tolerant.objectCopyStep hs ..)
  | objectDrop => exact here (tolerant.objectDropStep hs _)
  | objectHold => exact here (tolerant.objectHoldStep hs _)
  | objectInfo => exact here (tolerant.objectInfoStep hs _)
  | objectEq => exact here (tolerant.objectEqStep hs ..)
  | objectGet => exact here (tolerant.objectGetStep hs ..)
  | objectInto => exact here (tolerant.objectIntoStep hs ..)
  | derefNull => exact here (tolerant.fail hs _)
  | outPut => exact here (tolerant.outPutStep hs ..)
  | outTake => exact here (tolerant.outTakeStep hs ..)
  | outInfo => exact here (tolerant.note hs _ _)
  | outDrop => exact here (tolerant.outDropStep hs _)
  | args a => exact hs.buildArgs a .replaceLast
  | argsAdd => exact here ((tolerant.swapLast hs .empty).push rfl)
  | argsInfo | argsGet => exact here (tolerant.note hs _ _)
  | argsSplit => exact here (tolerant.argsSplitStep hs)
  | ret a => exact hs.buildArgs a .ret
  | raise f => exact here ((tolerant.note hs _ _).push rfl)
  | raiseError => exact here (hs.raiseErrorStep ..)
  | panic => exact here (tolerant.fail (hs.level (.event _ _)) _)
  | nest => exact here (hs.nestStep ..)
  | deep => exact here (hs.deepStep ..)
  | loop => exact here (hs.push rfl)
  | ifDead => exact here (hs.ifDeadStep ..)
  | note | unknown => exact here (tolerant.note hs _ _)
  | spawn steps => exact here (hs.spawnStep steps)

theorem runSteps (hs : w.Stands .frame) (rest : List Script.Step) :
    ∃ c, (w.runSteps rest).Stands c := by
  cases rest with
  | nil => exact ⟨_, hs⟩
  | cons st rest =>
    unfold World.runSteps
    simp only
    split
    · exact ⟨.frame, hs.push rfl⟩
    · rename_i fuel _
      have h₁ : { w with fuel }.Stands .frame := hs.level (.of_eq rfl rfl rfl)
      have h₂ : ({ w with fuel }.push [.steps rest]).Stands .frame := h₁.push rfl
      exact h₂.runStep st

theorem rallyCall (hs : w.Stands c) (target : Ref) (p : Payload) {next : Rally}
    (hn : Context.task (.rally next) c = some .await) :
    ∃ c, (Rally.call target p next w).Stands c := by
  unfold Rally.call
  split
  · rename_i h w₁ hh
    have h₁ : (w₁.holdHub h).Stands c := (tolerant.homeHub hs hh).level (.of_eq rfl rfl rfl)
    refine ⟨.floor, h₁.push ?_⟩
    simp [hn, Context.item]
    rfl
  · rename_i e w₁ hh
    refine ⟨.await, (tolerant.homeHub hs hh).push ?_⟩
    rw [Context.upon_neutral_append (Task.all_isNeutral_dropPayload p)]
    simp [hn, Context.item]
    rfl

theorem rallyBegin (hs : w.Stands c) (rounds : Int64) :
    ∃ c, (Rally.begin rounds w).Stands c := by
  unfold Rally.begin
  have h₀ := tolerant.print (tolerant.print hs "=== Greenlet Ping-Pong ===") ""
  simp only
  split
  · rename_i e w₁ hh
    exact ⟨c, tolerant.homeHub h₀ hh⟩
  · rename_i h w₁ hh
    have h₁ := ((tolerant.homeHub h₀ hh).level (.retain (w₁.hub h).current)).level
      (.retain (w₁.hub h).current)
    split
    · rename_i e w₂ hc
      exact ⟨c, (tolerant.createGreenlet h₁ hc).neutral rfl⟩
    · rename_i pong w₂ hc
      have h₂ := (tolerant.createGreenlet h₁ hc).level (.retain pong)
      split
      · rename_i e w₃ hc'
        exact ⟨c, (tolerant.createGreenlet h₂ hc').neutral rfl⟩
      · rename_i ping w₃ hc'
        have h₃ : (w₃.numberArgs rounds).2.Stands c :=
          (tolerant.createGreenlet h₂ hc').level (.of_eq rfl rfl rfl)
        exact h₃.rallyCall ping _ rfl

theorem rallyRelay (hs : w.Stands c) (main pong ping : Ref) (a : Args Obj) :
    ∃ c, (Rally.relay main pong ping a w).Stands c := by
  unfold Rally.relay
  simp only
  split
  · exact (tolerant.print (tolerant.print hs _) _).rallyCall pong _ rfl
  · exact (tolerant.print hs _).rallyCall ping _ rfl

theorem rallyRun {r : Rally} (hs : w.Stands c) (hr : Context.task (.rally r) c = some c') :
    ∃ c, (r.run w).Stands c := by
  cases r with
  | start rounds => exact hs.rallyBegin rounds
  | hit main args =>
    obtain ⟨hc, -⟩ := Context.guard_eq_some_iff.mp hr
    obtain rfl : c = .entry := by simpa using hc
    have h₁ : ((w.write .info ("pong got " ++ toString ((w.number? args).getD 0).toInt)).numberArgs
        ((w.number? args).getD 0 + 1)).2.Stands .entry := hs.level (.of_eq rfl rfl rfl)
    exact h₁.rallyCall main _ rfl
  | serve pong args rounds left ball =>
    obtain ⟨hc, -⟩ := Context.guard_eq_some_iff.mp hr
    obtain rfl : c = .entry := by simpa using hc
    simp only [Rally.run]
    have h₁ : (w.numberArgs ball).2.Stands .entry := hs.level (.of_eq rfl rfl rfl)
    split
    · have h₂ : ((w.numberArgs ball).2.alloc (.i64 rounds)).2.Stands .entry :=
        h₁.level (.of_eq rfl rfl rfl)
      refine ⟨.entry, h₂.push ?_⟩
      rw [Context.upon_neutral_append (Task.all_isNeutral_dropArgs args)]
      rfl
    · exact h₁.rallyCall pong _ rfl
  | _ => exact ⟨c, hs.neutral (Task.all_isNeutral_drops _)⟩

theorem rallyAnswered {r : Rally} (hs : w.Stands c)
    (hr : Context.task (.rally r) c = some .await) (outcome : Except SwitchError (Args Obj)) :
    ∃ c, (r.answered outcome w).Stands c := by
  have drops (r : Rally) (a : Args Obj) :
      ∃ c, (w.push (Task.dropArgs a ++ r.drops)).Stands c := by
    refine ⟨c, hs.neutral ?_⟩
    rw [List.all_append, Task.all_isNeutral_dropArgs, Task.all_isNeutral_drops]
    rfl
  cases r with
  | start rounds =>
    cases outcome with
    | ok a => exact drops _ a
    | error e => exact ⟨c, hs.neutral rfl⟩
  | relayed main pong ping =>
    cases outcome with
    | ok a => exact hs.rallyRelay main pong ping a
    | error e => exact ⟨c, hs.neutral rfl⟩
  | stopped main pong ping reply =>
    cases outcome with
    | ok a =>
      refine ⟨c, (tolerant.rallyFinish hs pong).neutral ?_⟩
      rw [List.all_append, Task.all_isNeutral_dropArgs, Task.all_isNeutral_drops]
      rfl
    | error e => exact ⟨c, hs.neutral (Task.all_isNeutral_drops _)⟩
  | hit | serve => exact absurd hr (by simp [Context.task, Context.guard])
  | hitBack main args =>
    obtain ⟨hc, -⟩ := Context.guard_eq_some_iff.mp hr
    obtain rfl : c = .entry := by simpa using hc
    cases outcome with
    | ok a =>
      refine ⟨.entry, hs.push ?_⟩
      rw [Context.upon_neutral_append (Task.all_isNeutral_dropArgs args)]
      rfl
    | error e =>
      refine ⟨.entry, hs.push ?_⟩
      rw [Context.upon_neutral_append (Task.all_isNeutral_drops _)]
      rfl
  | served pong args rounds left ball =>
    obtain ⟨hc, -⟩ := Context.guard_eq_some_iff.mp hr
    obtain rfl : c = .entry := by simpa using hc
    cases outcome with
    | ok a =>
      refine ⟨.entry, hs.push ?_⟩
      rw [Context.upon_neutral_append (Task.all_isNeutral_dropArgs a)]
      rfl
    | error e =>
      refine ⟨.entry, hs.push ?_⟩
      rw [Context.upon_neutral_append (Task.all_isNeutral_drops _)]
      rfl

end Stands

end World

end Switchyard
