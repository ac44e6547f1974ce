import Switchyard.Script.Control
import Switchyard.Script.OnHubs
import Switchyard.Script.OnObjects

/-!
# Running a step

Each step takes one unit of fuel. Without fuel a frame ends as if it returned nothing.
-/

namespace Switchyard.World

def runStep (st : Script.Step) (w : World) : World :=
  match st with
  | .create as_ body caps holds parent hub => w.createStep as_ body caps holds parent hub
  | .switch h args hub catches => w.switchStep h args hub catches
  | .throw h f hub catches => w.throwStep h f hub catches
  | .drop h => w.dropStep h
  | .clone h as_ => w.cloneStep h as_
  | .hold h => w.holdStep h
  | .keep h => w.keepStep h
  | .canary c => (w.pushLocal (.canary c)).note st.name [.ok]
  | .pop => w.popStep
  | .setParent h p => w.setParentStep h p
  | .info h => w.lookStep st.name h greenletDatum
  | .refs h => w.lookStep st.name h fun r w => .nat (w.count r)
  | .eq h b => w.eqStep h b
  | .owner h => w.ownerStep h
  | .debug h hub => w.debugStep h hub
  | .current => w.currentStep
  | .bind at_ as_ catches => w.bindStep at_ as_ catches
  | .stats hub => w.hubStep st.name hub fun h w => w.note st.name [(w.hub h).stats.datum]
  | .counts hub => w.hubStep st.name hub fun h w => w.note st.name [countsDatum (w.hub h)]
  | .collect hub => w.collectStep hub
  | .teardown hub => w.teardownStep hub
  | .newHub as_ => w.newHubStep as_
  | .dropHub hub => w.dropHubStep hub
  | .hubMain as_ hub => w.hubGreenletStep st.name as_ hub Hub.main
  | .hubCurrent as_ hub => w.hubGreenletStep st.name as_ hub Hub.current
  | .registerSwitch h hub => w.registerSwitchStep h hub
  | .defer h hub => w.deferStep h hub
  | .hasHub => w.hasHubStep
  | .lock => w.lockStep
  | .pending => w.touchPending.note st.name [.bool w.pendingFull]
  | .pendingTake => w.pendingTakeStep
  | .pendingClear => w.pendingClearStep
  | .pendingSet f =>
    let w := w.registerFailure f
    w.note st.name [.bool w.pendingFull]
  | .pendingSetError e =>
    let w := w.raise e
    w.note st.name [.bool w.pendingFull]
  | .pendingFetch out => w.pendingFetchStep out
  | .object as_ v => w.objectStep as_ v
  | .objectClone o as_ => w.objectCopyStep st.name o as_
  | .objectReborrow o as_ => w.objectCopyStep st.name o as_
  | .objectDrop o => w.objectDropStep o
  | .objectHold o => w.objectHoldStep o
  | .objectInfo o => w.objectInfoStep o
  | .objectEq o b => w.objectEqStep o b
  | .objectGet o kind view => w.objectGetStep o kind view
  | .objectInto o kind family => w.objectIntoStep o kind family
  | .derefNull => w.fail (.text ("dereferenced a null " ++ Kind.i64.name ++ " reference"))
  | .outPut o out => w.outPutStep o out
  | .outTake out as_ => w.outTakeStep out as_
  | .outInfo out => w.outInfoStep out
  | .outDrop out => w.outDropStep out
  | .args a => w.buildArgs a .replaceLast
  | .argsAdd positional keywords => w.argsAddStep positional keywords
  | .argsInfo => w.argsInfoStep
  | .argsGet at_ kind => w.argsGetStep at_ kind
  | .argsSplit => w.argsSplitStep
  | .ret a => w.buildArgs a .ret
  | .raise f => (w.note st.name [f.datum]).push [.leave (.error (.propagated f))]
  | .raiseError e register => w.raiseErrorStep e register
  | .panic message mode => w.panicStep message mode
  | .nest how steps => w.nestStep how steps
  | .deep n steps => w.deepStep n steps
  | .loop n steps => w.push [.loop n steps]
  | .ifDead h yes no => w.ifDeadStep h yes no
  | .note d => w.note st.name [d]
  | .spawn steps => w.spawnStep steps
  | .unknown name => w.note name [.text "unknown step"]

/-- The next of the steps of a frame. -/
def runSteps (rest : List Script.Step) (w : World) : World :=
  match rest with
  | [] => w
  | st :: rest =>
    match w.fuel with
    | 0 => w.push [.leave (.ret .empty)]
    | fuel + 1 => ({ w with fuel }.push [.steps rest]).runStep st

/-- The next step of the first thread, which survives what leaves the step. -/
def runMainSteps (rest : List Script.Step) (w : World) : World :=
  match rest with
  | [] => w
  | st :: rest => w.push [.steps [st], .mainGuard, .mainSteps rest]

def runLoop (n : Nat) (steps : List Script.Step) (w : World) : World :=
  match n with
  | 0 => w
  | n + 1 => w.push [.steps steps, .loop n steps]

end Switchyard.World
