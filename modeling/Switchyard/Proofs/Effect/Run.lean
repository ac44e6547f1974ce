import Switchyard.Proofs.Effect.Frames

/-!
# Tasks that are effects

A facade step works on thread states only by creating greenlets, switching, throwing and
collecting. Tasks that run scripts make effects and nothing else.
-/

namespace Switchyard

/-- The step does not touch a thread state behind the back of its thread. -/
def Script.Step.isFacade : Script.Step → Bool
  | registerSwitch .. | defer .. | teardown _ | newHub _ | dropHub _ => false
  | _ => true

/-- Tasks that run a piece of a script, or nothing. -/
def Task.isScript : Task → Bool
  | dropCanary _ | deliver _ | refuse _ | bodyEnd _ | runBody .. | mainSteps _ | mainGuard
  | loop .. | frame _ | nestEnd _ | dropEnd _ | rootEnd | note .. | build .. | switched ..
  | sortFrom _ | join _ | endHandles | endHandle _ | endObjects | endOuts | endStats
  | rally _ => true
  | steps [] => true
  | steps (st :: _) => st.isFacade
  | _ => false

/-- The task works on the innermost frame, or gives what it has to one that does. -/
def World.usesFrame (t : Task) (w : World) : Bool :=
  match t, w.thread.stack with
  | .steps (_ :: _), _ | .build .., _ | .answer _, .task (.switched ..) :: _
  | .hand .., .task (.nestEnd _) :: _ => true
  | _, _ => false

/-- The step takes the pending failure of the thread. -/
def Script.Step.clears : Script.Step → Bool
  | pendingTake | pendingClear | pendingFetch _ => true
  | _ => false

/-- The task takes the pending failure of the thread, if there is one: a step does that asks for it,
and whatever delivers the result of a switch. -/
def World.clears (t : Task) (w : World) : Bool :=
  match t with
  | .deliver (.ok _) => true
  | .switch h target (.ok _) => (w.hub h).current == target
  | .resumed h => ((w.greenlet (w.hub h).current).inbox.getD (.ok .empty)).isOk
  | .steps (st :: _) => st.clears
  | _ => false

/-- The greenlet that the step puts under another one. -/
def World.linkedBy (st : Script.Step) (w : World) : Option Ref :=
  match st with
  | .setParent h _ => (w.peek h).1
  | _ => none

def World.linked (t : Task) (w : World) : Option Ref :=
  match t with
  | .steps (st :: _) => w.linkedBy st
  | _ => none

/-- The step may do all that it does besides. -/
structure Licence.Lets (L : Licence) (w : World) (st : Script.Step) : Prop where
  frames : L.Frames w
  clears : st.clears = true → L.clears
  links : ∀ r, w.linkedBy st = some r → L.links r

/-- The task may do all that it does besides. -/
structure Licence.Grants (L : Licence) (w : World) (t : Task) : Prop where
  frames : w.usesFrame t = true → L.Frames w
  clears : w.clears t = true → L.clears
  links : ∀ r, w.linked t = some r → L.links r

theorem Licence.grants_full (w : World) (t : Task) : full.Grants w t :=
  ⟨fun _ => .inl trivial, fun _ => trivial, fun _ _ => trivial⟩

open World

variable {L : Licence} {w w' : World} {hand hand' : List Token}

namespace World

/-- What `@main`, `@cur` and `@parent` mean on the active thread. A new hub would have a main
greenlet without a parent. -/
def homeName (name : String) (w : World) : Option Ref :=
  match w.thread.home with
  | .full h =>
    if name = "@main" then some (w.hub h).main
    else if name = "@cur" then some (w.hub h).current
    else w.parent (w.hub h).current
  | .vacant => if name = "@main" || name = "@cur" then some w.heap.size else none
  | .gone => none

theorem peek_fst (hw : w.Seated) (name : String) : (w.peek name).1 =
    if name = "@main" || name = "@cur" || name = "@parent" then w.homeName name
    else w.handles.find? name := by
  have hq : Quiet w w.touchHome := .touchHome
  have hh : w.touchHome.thread.home = w.thread.home := (hq.thread hw).2.2
  unfold World.peek
  split
  · unfold World.homeHub World.homeName
    simp only [hh]
    cases w.thread.home with
    | full h =>
      simp only
      have hs : w.touchHome.hub h = w.hub h := by simp only [World.hub, hq.hubs]
      have hg (r : Ref) : (w.touchHome.greenlet r).parent = w.parent r := by
        simp only [World.parent, World.greenlet_eq, hq.greenlet?]
      simp only [hs, hg]
      split
      · rfl
      · split <;> rfl
    | vacant =>
      obtain ⟨h₁, id, hc⟩ := createHub_quiet w.touchHome
      have hz : w.touchHome.heap.size = w.heap.size := by rw [hq.heap]
      have hs : (w.touchHome.createHub.2.modifyThread fun t =>
          { t with home := .full w.touchHome.createHub.1 }).hub w.touchHome.createHub.1 =
          { thread := w.touchHome.active, main := w.heap.size, current := w.heap.size } := by
        have hb := hc.hubs
        simp only [World.hub, World.modifyThread, h₁, hb, hz]
        simp
      have hg : ((w.touchHome.createHub.2.modifyThread fun t =>
          { t with home := .full w.touchHome.createHub.1 }).greenlet w.heap.size).parent = none := by
        have hb := hc.object?
        have ho : (w.touchHome.createHub.2.modifyThread fun t =>
            { t with home := .full w.touchHome.createHub.1 }).object? w.heap.size =
            some ⟨2, .greenlet (w.touchHome.newMain id)⟩ := by
          change w.touchHome.createHub.2.object? w.heap.size = _
          rw [hb]
          change (World.retain _ _).object? _ = _
          rw [World.retain, object?_modifyObject, object?_alloc, hz]
          simp
        rw [greenlet_of_some (greenlet?_eq_some_iff.mpr ⟨2, ho⟩)]
        rfl
      simp only [hs, hg]
      by_cases h₁ : name = "@main"
      · simp [h₁]
      · by_cases h₂ : name = "@cur"
        · simp [h₂]
        · simp [h₁, h₂]
    | gone => rfl
  · rfl

theorem peek_congr (hw : w.Seated) (hw' : w'.Seated) (hh : w'.handles = w.handles)
    (ho : w'.thread.home = w.thread.home) (hs : w'.hubs = w.hubs) (hp : w'.heap = w.heap)
    (name : String) : (w'.peek name).1 = (w.peek name).1 := by
  have hg (r : Ref) : w'.parent r = w.parent r := by
    simp only [World.parent, World.greenlet_eq, World.greenlet?, World.object?, hp]
  have hn : w'.homeName name = w.homeName name := by
    unfold World.homeName
    simp only [ho, World.hub, hs, hg, hp]
  rw [peek_fst hw, peek_fst hw', hn, hh]

end World

theorem Licence.Grants.lets {st : Script.Step} {rest : List Script.Step}
    (hg : L.Grants w (.steps (st :: rest))) (hw : w.Seated) (fuel : Nat) :
    L.Lets ({ w with fuel }.push [.steps rest]) st where
  frames := by
    have hs : { w with fuel }.Seated := hw
    refine (hg.frames rfl).imp_right fun hf => ?_
    unfold World.HasFrame
    rw [World.push, thread_modifyThread hs]
    exact hf
  clears := hg.clears
  links r hr := hg.links r <| by
    cases st with
    | setParent h p =>
      have hs : { w with fuel }.Seated := hw
      have ht : ({ w with fuel }.push [.steps rest]).thread.home = w.thread.home := by
        rw [World.push, thread_modifyThread hs]
        rfl
      exact (peek_congr hw ((seated_modifyThread _).mpr hs) rfl ht rfl rfl h).symm.trans hr
    | _ => cases hr

namespace Effect

theorem runStep (hw : w.Seated) {st : Script.Step} (hf : st.isFacade = true) (hl : L.Lets w st) :
    Effect L [] w [] (w.runStep st) := by
  have hr := hl.frames
  cases st with
  | registerSwitch | defer | teardown | newHub | dropHub => cases hf
  | create => exact createStep hw ..
  | switch => exact switchStep hw hr ..
  | throw => exact throwStep hw ..
  | drop => exact dropStep _
  | clone => exact cloneStep hw ..
  | hold => exact holdStep hw hr _
  | keep => exact keepStep hw hr _
  | canary c => exact (pushLocal hr (.canary c)).note _ _
  | pop => exact popStep hr
  | setParent h p => exact setParentStep hw h p hl.links
  | info | refs => exact lookStep ..
  | eq => exact eqStep ..
  | owner => exact ownerStep _
  | debug => exact debugStep ..
  | current => exact currentStep
  | bind => exact bindStep ..
  | stats hub => exact hubNote "stats" hub fun h w => (w.hub h).stats.datum
  | counts hub => exact hubNote "counts" hub fun h w => countsDatum (w.hub h)
  | collect => exact collectStep hw _
  | hubMain => exact hubGreenletStep hw _ _ _ (.inl rfl)
  | hubCurrent => exact hubGreenletStep hw _ _ _ (.inr rfl)
  | hasHub => exact hasHubStep
  | lock => exact lockStep
  | pending => exact (quiet .touchPending).note _ _
  | pendingTake => exact pendingTakeStep (hl.clears rfl)
  | pendingClear => exact pendingClearStep (hl.clears rfl)
  | pendingSet f => exact (registerFailure f).note _ _
  | pendingSetError e => exact (raise e).note _ _
  | pendingFetch => exact pendingFetchStep (hl.clears rfl) _
  | object => exact objectStep hw ..
  | objectClone | objectReborrow => exact objectCopyStep ..
  | objectDrop => exact objectDropStep _
  | objectHold => exact objectHoldStep hw hr _
  | objectInfo => exact objectInfoStep _
  | objectEq => exact objectEqStep ..
  | objectGet => exact objectGetStep ..
  | objectInto => exact objectIntoStep ..
  | derefNull => exact .fail _
  | outPut => exact outPutStep ..
  | outTake => exact outTakeStep ..
  | outInfo => exact outInfoStep _
  | outDrop => exact outDropStep _
  | args a => exact buildArgs hw hr a .replaceLast
  | argsAdd => exact argsAddStep hr ..
  | argsInfo | argsGet => exact refl.note _ _
  | argsSplit => exact argsSplitStep hr
  | ret a => exact buildArgs hw hr a .ret
  | raise f => exact (refl.note _ _).pushing rfl fun k => by simp [Task.tokens, Flow.tokens]
  | raiseError => exact raiseErrorStep ..
  | panic => exact panicStep ..
  | nest => exact nestStep hr ..
  | deep => exact deepStep hr ..
  | loop => exact refl.pushing rfl fun k => by simp [Task.tokens]
  | ifDead => exact ifDeadStep ..
  | note | unknown => exact refl.note _ _
  | spawn steps => exact .spawn steps

theorem runSteps (hw : w.Seated) {rest : List Script.Step}
    (hf : (Task.steps rest).isScript = true) (hg : L.Grants w (.steps rest)) :
    Effect L [] w [] (w.runSteps rest) := by
  cases rest with
  | nil => exact refl
  | cons st rest =>
    unfold World.runSteps
    simp only
    split
    · exact refl.pushing rfl fun k => by simp [Task.tokens, Flow.tokens]
    · rename_i fuel _
      have e : Effect L [] w [] { w with fuel } :=
        quiet ⟨rfl, rfl, rfl, rfl, rfl, rfl, rfl, rfl, rfl, rfl, rfl⟩
      have e' : Effect L [] w [] ({ w with fuel }.push [.steps rest]) :=
        e.pushing rfl fun k => by simp [Task.tokens]
      exact e'.trans (runStep (e'.seated hw) hf (hg.lets hw fuel))

theorem runBody (run : RunFn) (args : Args Obj) :
    Effect L (run.tokens ++ args.tokens) w [] (w.runBody run args) := by
  unfold World.runBody
  split
  · refine Effect.pushing (quiet (.event _ _)) rfl fun k => ?_
    simp [Task.tokens, Frame.tokens]
    omega
  · refine refl.pushing rfl fun k => ?_
    simp [Task.tokens, Rally.tokens, RunFn.tokens, RunFn.held, List.count_cons]
  · refine refl.pushing rfl fun k => ?_
    simp [Task.tokens, Rally.tokens, RunFn.tokens, RunFn.held, List.count_cons]

theorem endFrame (f : Frame) (flow : Flow) :
    Effect L (flow.tokens ++ f.tokens) w [] (w.endFrame f flow) := by
  refine refl.pushing ?_ fun k => ?_
  · simp only [List.all_append, Bool.and_eq_true, List.all_eq_true, List.mem_filterMap]
    refine ⟨?_, by simp [Task.isPlain]⟩
    rintro t ⟨l, -, hl⟩
    cases l with
    | object o => cases o <;> cases hl; rfl
    | _ => cases hl; rfl
  · simp [Task.tokens, Frame.tokens]
    omega

theorem runTask (hw : w.Seated) {t : Task} (ht : t.isScript = true) (hg : L.Grants w t) :
    Effect L t.tokens w [] (w.runTask t) := by
  cases t with
  | dropCanary c => exact dropCanary c
  | deliver p =>
    have e : Effect L (p.tokens ++ []) w [] (w.deliver p) :=
      deliver p fun a hp => hg.clears (by rw [hp]; rfl)
    exact (trade fun k => by simp [Task.tokens]).trans e
  | refuse e => exact refuse e
  | bodyEnd run =>
    exact refl.pushing (Task.all_isPlain_dropRun run) fun k => by simp [Task.tokens]
  | runBody run args => exact runBody run args
  | steps rest => exact runSteps hw ht hg
  | mainSteps rest =>
    cases rest with
    | nil => exact refl
    | cons st rest => exact refl.pushing rfl fun k => by simp [Task.tokens]
  | loop n steps =>
    cases n with
    | zero => exact refl
    | succ n => exact refl.pushing rfl fun k => by simp [Task.tokens]
  | frame f => exact endFrame f .through
  | dropEnd name => exact quiet (.event _ _)
  | note name result => exact refl.note name result
  | build acc positional keywords purpose => exact build hw (hg.frames rfl) acc positional keywords purpose
  | switched name target catches => exact refl.pushing rfl fun k => by simp [Task.tokens]
  | sortFrom n => exact quiet ⟨rfl, rfl, rfl, rfl, rfl, rfl, rfl, rfl, rfl, rfl, rfl⟩
  | join t => exact refl.note _ _
  | mainGuard | nestEnd | rootEnd => exact refl
  | endHandles => exact endHandles
  | endHandle name => exact endHandle name
  | endObjects => exact endObjects
  | endOuts => exact endOuts
  | endStats => exact endStats
  | rally r => exact rallyRun hw r
  | _ => cases ht

end Effect

end Switchyard
