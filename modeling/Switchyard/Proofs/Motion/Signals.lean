import Switchyard.Proofs.Motion.Driver

/-!
# Tasks in motion

Each task, and each signal that meets another task, is a sequence of motions. Two things are left
out: hubs that are made outside of the slot of a thread, and the slot that ends with a hub in it.
-/

namespace Switchyard

open World

/-- The step makes a hub that is not in the slot of its thread. -/
def Script.Step.makesHub : Script.Step → Bool
  | newHub _ => true
  | _ => false

def Task.makesHub : Task → Bool
  | steps (st :: _) => st.makesHub
  | _ => false

namespace Task

theorem eq_steps_of_makesHub {t : Task} (h : t.makesHub = true) :
    ∃ name rest, t = .steps (.newHub name :: rest) := by
  cases t with
  | steps rest =>
    cases rest with
    | nil => cases h
    | cons st rest =>
      cases st with
      | newHub name => exact ⟨name, rest, rfl⟩
      | _ => cases h
  | _ => cases h

def hub? : Task → Option HubId
  | leaveHub h | dropHubFields h | release h _ | released h _ | drain h | teardown h
  | teardownQueues h _ | teardownCurrent h _ | switch h _ _ | suspend h _ | drive h _ _
  | driveTarget h _ _ | driveRegister h _ _ | driveResume h _ _ | driveBack h _ _
  | endDriving h => some h
  | _ => none

/-- The task gives what it has to the task below it. -/
def isMessage : Task → Bool
  | answer _ | leave _ | hand .. | result _ => true
  | _ => false

/-- The task ends what a fiber runs, if it is the entry of a fiber that lies below. -/
def isOutcome : Task → Bool
  | result _ | fail _ => true
  | _ => false

/-- The task runs a step that works on a thread state directly. -/
def isInner : Task → Bool
  | steps (st :: _) => !st.isFacade
  | _ => false

/-- What the task hands over when it is run. That a value is destroyed shows in the step. -/
def handed : Task → List Token
  | destroy r => [.grave r]
  | t => t.tokens

theorem handed_le (t : Task) (k : Token) :
    t.handed.count k ≤ t.tokens.count k := by
  cases t with
  | destroy r => simp [handed, tokens, List.count_cons]
  | _ => exact Nat.le_refl _

theorem count_grave_handed (t : Task) (r : Ref) :
    t.handed.count (.grave r) = t.tokens.count (.grave r) := by
  cases t with
  | destroy q => simp [handed, tokens, List.count_cons]
  | _ => rfl

end Task

namespace World

/-- The task changes the hub, or lets the fiber of the hub end. -/
def WorksOn (w : World) (t : Task) (h : HubId) : Prop :=
  t.hub? = some h ∨
    t.isOutcome = true ∧ ∃ f below, w.thread.stack = .task (.entry h f) :: below

def WorksWith (w : World) (t : Task) (r : Ref) : Prop :=
  match t with
  | .release _ q | .teardownEnd _ q _ | .driveBack _ q _ => r = q
  | .driveTarget h q _ | .driveRegister h q _ => r = q ∨ r = (w.hub h).current
  | .resumed h => r = (w.hub h).current
  | .teardown h => r ∈ (w.hub h).nodes
  | _ => False

def Moves (w : World) (t : Task) (f : FiberId) : Prop :=
  match t with
  | .unshare q | .settle q | .driveResume _ _ q => f = q
  | .dropPinned p => p.get? w.active = some f
  | .release _ q | .driveTarget _ q _ => w.ownFiber q = some f
  | .teardown h => ∃ r ∈ (w.hub h).nodes, w.ownFiber r = some f
  | .suspend .. => w.topFiber = some f
  | .fail _ => ∃ forced below, w.thread.stack = .base f forced :: below
  | _ => False

/-- The task keeps the storage of `r` from being freed. -/
def Strands (w : World) (t : Task) (r : Ref) : Prop :=
  t.isSignal = true ∧ ∃ below, w.thread.stack = .task (.reclaim r) :: below

end World

open World in
/-- The task may do all that it does. -/
structure Licence.Admits (L : Licence) (w : World) (t : Task) : Prop extends L.Grants w t where
  hubs : ∀ h, w.WorksOn t h → L.hubs h
  greenlets : ∀ r, w.WorksWith t r → L.greenlets r
  fibers : ∀ f, w.Moves t f → L.fibers f
  parts : ∀ r, t = .drop r → L.Parts w r
  heard : t.isMessage = true → L.leaks ∨ ∃ u below, w.thread.stack = .task u :: below
  strands : ∀ r, w.Strands t r → L.sheds r
  mounted : (∀ k, L.Loses k) ∨ w.control.Mounted
  inner : t.isInner = true → L.leaks ∧ (∀ h, L.hubs h) ∧ ∀ r, L.greenlets r

theorem Licence.admits_full (w : World) (t : Task) : full.Admits w t where
  toGrants := grants_full w t
  hubs _ _ := trivial
  greenlets _ _ := trivial
  fibers _ _ := trivial
  parts _ _ := ⟨trivial, .inl trivial, fun _ _ _ => ⟨trivial, trivial, fun _ _ => trivial⟩⟩
  heard _ := .inl trivial
  strands _ _ := trivial
  mounted := .inl Licence.loses_full
  inner _ := ⟨trivial, fun _ => trivial, fun _ => trivial⟩

namespace World

theorem reaches_of_peek {w w' : World} (hw : w.Seated) {name : String} {r : Ref} {h : HubId}
    (hp : w.peek name = (some r, w')) (hr : w.Reaches h) : w'.Reaches h := by
  have hn : w'.named = w.named := by
    have e : Effect .full [] w [] w' := .peek hp
    exact e.named
  rcases hr with hr | ⟨n, hr⟩
  case inr => exact .inr ⟨n, by rw [hn]; exact hr⟩
  unfold World.peek at hp
  split at hp
  · have hh : w.touchHome.thread.home = .full h := (Quiet.touchHome.thread hw).2.2.trans hr
    have he : w.homeHub = (.ok h, w.touchHome) := by
      unfold World.homeHub
      simp only [hh]
    rw [he] at hp
    simp only at hp
    split at hp
    · obtain ⟨-, rfl⟩ := Prod.mk.inj hp
      exact .inl hh
    · split at hp
      · obtain ⟨-, rfl⟩ := Prod.mk.inj hp
        exact .inl hh
      · obtain ⟨-, rfl⟩ := Prod.mk.inj hp
        exact .inl hh
  · obtain ⟨-, rfl⟩ := Prod.mk.inj hp
    exact .inl hr

theorem reaches_of_handle {w w' : World} (hw : w.Seated) {name : String} {r : Ref} {h : HubId}
    (hh : w.handle name = (some r, w')) (hr : w.Reaches h) : w'.Reaches h := by
  unfold World.handle at hh
  split at hh
  · rename_i q v hp
    obtain ⟨-, rfl⟩ := Prod.mk.inj hh
    have hv := reaches_of_peek hw hp hr
    exact hv
  · simp at hh

end World

namespace Motion

variable {L : Licence} {w w' : World} {hand hand' : List Token} {r : Ref} {h : HubId} {t u : Task}

theorem pass (hw : w.Seated) (ht : ∀ r, t = .reclaim r → L.sheds r) (hu : u.isAlone = true) :
    Motion L (t.tokens ++ u.tokens) w [] (w.pass t u) := by
  refine pushAlone hw ?_ ((Task.pays_cleanup t ht).congr fun k _ => ?_)
  · rw [List.all_append, Task.all_isAlone_cleanup]
    simpa using hu
  · simp only [Task.tokensOf_append, Task.tokensOf_cons, Task.tokensOf_nil, List.append_nil,
      List.count_append, List.count_nil]
    omega

theorem answer (hw : w.Seated) (ht : ∀ r, t = .reclaim r → L.sheds r)
    (hf : (∃ name target catches, t = .switched name target catches) → L.Frames w)
    (outcome : Except SwitchError (Args Obj)) :
    Motion L (t.tokens ++ (Task.answer outcome).tokens) w [] (w.answer outcome t) := by
  cases t with
  | switched name target catches => exact .script (.switched (hf ⟨_, _, _, rfl⟩) name target catches outcome)
  | rally x => exact .script (.rallyAnswered hw x outcome)
  | _ => exact pass hw ht rfl

theorem leaveFrame (hw : w.Seated) (ht : ∀ r, t = .reclaim r → L.sheds r) (flow : Flow) :
    Motion L (t.tokens ++ flow.tokens) w [] (w.leave flow t) := by
  have hp : Motion L (t.tokens ++ (Task.leave flow).tokens) w [] (w.pass t (.leave flow)) :=
    pass hw ht rfl
  cases t with
  | frame f =>
    have he (v : World) (hv : Quiet w v) :
        Motion L ((Task.frame f).tokens ++ flow.tokens) w [] (v.endFrame f flow) := by
      refine (quiet hv).trans (.trans (.trade (.of_eq fun k _ => ?_)) (.script (.endFrame f flow)))
      simp only [Task.tokens, List.count_append]
      omega
    unfold World.leave
    simp only
    split
    · exact he _ (.event _ _)
    · exact he _ (.refl w)
  | mainGuard =>
    cases flow with
    | error e => exact .quiet (.event _ _)
    | _ => exact hp
  | dropEnd name =>
    refine pushAlone hw ?_ (.of_eq fun k _ => by simp [Task.tokens])
    rw [List.all_append, Task.all_isAlone_dropFlow]
    rfl
  | _ => exact hp

theorem handOn (hw : w.Seated) (ht : ∀ r, t = .reclaim r → L.sheds r)
    (hf : (∃ how, t = .nestEnd how) → L.Frames w) (last : Args Obj) (flow : Flow) :
    Motion L (t.tokens ++ (last.tokens ++ flow.tokens)) w [] (w.hand last flow t) := by
  have hp : Motion L (t.tokens ++ (Task.hand last flow).tokens) w [] (w.pass t (.hand last flow)) :=
    pass hw ht rfl
  cases t with
  | nestEnd how => exact .script (.nestEnd (hf ⟨_, rfl⟩) how last flow)
  | bodyEnd run =>
    refine pushAlone hw ?_ (.of_eq fun k _ => ?_)
    · simp only [List.all_append, Task.all_isAlone_dropArgs, Task.all_isAlone_dropRun]
      rfl
    · cases flow <;>
        simp [Task.tokens, bodyResult, Payload.tokens, Flow.tokens] <;> omega
  | rootEnd =>
    refine pushAlone hw ?_ (.of_eq fun k _ => by simp [Task.tokens])
    rw [List.all_append, Task.all_isAlone_dropArgs, Task.all_isAlone_dropFlow]
    rfl
  | _ => exact hp

theorem result (hw : w.Seated) (ht : ∀ r, t = .reclaim r → L.sheds r)
    (hh : ∀ h f, t = .entry h f → L.hubs h) (p : Payload) :
    Motion L (t.tokens ++ p.tokens) w [] (w.result p t) := by
  have hp : Motion L (t.tokens ++ (Task.result p).tokens) w [] (w.pass t (.result p)) :=
    pass hw ht rfl
  cases t with
  | entry h f => exact postResult hw (hh h f rfl) f p
  | _ => exact hp

theorem exitThread (hw : w.Seated) : Motion L [] w [] w.exitThread := by
  have hq : Motion L [] w [] (if w.active = 1 then
      { w with exitFrom := some w.events.length } else w) := by
    split
    · exact quiet ⟨rfl, rfl, rfl, rfl, rfl, rfl, rfl, rfl, rfl, rfl, rfl⟩
    · exact refl
  exact hq.pushing hw rfl (.of_eq fun k _ => by simp [Task.tokens])

theorem failTask (hw : w.Seated) (ht : ∀ r, t = .reclaim r → L.sheds r)
    (hh : ∀ h f, t = .entry h f → L.hubs h) (p : Panic) :
    Motion L t.tokens w [] (w.failTask p t) := by
  have hp : Motion L t.tokens w [] (w.pass t (.fail p)) := by
    have h₁ : Motion L (t.tokens ++ (Task.fail p).tokens) w [] (w.pass t (.fail p)) :=
      pass hw ht rfl
    rwa [show (Task.fail p).tokens = [] from rfl, List.append_nil] at h₁
  have hc : Motion L [] w [] w.calm := quiet .calm
  cases t with
  | nestEnd how =>
    cases how with
    | attemptPanic again =>
      unfold World.failTask
      simp only
      split
      · exact (hc.note _ _).trans (.script (.fail _))
      · exact hc.note _ _
    | _ => exact hp
  | mainGuard => exact hc.trans (quiet (.event _ _))
  | entry h f =>
    unfold World.failTask
    simp only
    split
    · exact pushAlone hw rfl (.of_eq fun k _ => by simp [Task.tokens])
    · have hr : Motion L (Payload.tokens (.error (.ofPanic p))) w.calm [] _ :=
        postResult (hc.seated hw) (hh h f rfl) f (.error (.ofPanic p))
      exact hc.trans hr
  | exitThread =>
    have hm : Motion L [] w [] (w.calm.modifyThread fun t => { t with panicked := some p }) :=
      hc.trans (quiet (.modifyThread fun _ => ⟨rfl, rfl, rfl, rfl⟩))
    exact hm.trans (exitThread (hm.seated hw))
  | _ => exact hp

theorem land {f : FiberId} {forced : Bool} (hf : L.fibers f)
    (hm : (∀ k, L.Loses k) ∨ (forced = false → (w.fiberD f).tokens = [])) :
    Motion L hand w hand (w.setControl (w.control.land f forced)) :=
  fibers (fun hc => hc.land f forced) (spares_modify hf _ _)
    (fun _ k => Control.claims_land forced k) fun _ => hm.imp_right fun hm k =>
      Control.owed_land hm k

theorem failBase (hw : w.Seated) (p : Panic) {f : FiberId} {forced : Bool} (hf : L.fibers f)
    (hm : (∀ k, L.Loses k) ∨ (forced = false → (w.fiberD f).tokens = [])) :
    Motion L [] w [] (w.failBase p f forced) := by
  have hl : Motion L [] w [] (w.setControl (w.control.land f forced)) := land hf hm
  unfold World.failBase
  simp only
  split
  · exact hl.trans (quiet .calm)
  · exact hl.pushing hw rfl (.of_eq fun k _ => by simp [Task.tokens])

theorem fault (hw : w.Seated) (p : Panic)
    (hh : ∀ h f below, w.thread.stack = .task (.entry h f) :: below → L.hubs h)
    (hf : ∀ f forced below, w.thread.stack = .base f forced :: below → L.fibers f)
    (hr : ∀ r below, w.thread.stack = .task (.reclaim r) :: below → L.sheds r)
    (hm : (∀ k, L.Loses k) ∨ w.control.Mounted) : Motion L [] w [] (w.fault p) := by
  unfold World.fault
  split
  · exact refl
  · rename_i t below ht
    have hp : Motion L [] w (t.tokens ++ []) (w.setStack below) := pop ht
    rw [List.append_nil] at hp
    exact hp.trans (failTask (hp.seated hw) (fun r he => hr r below (he ▸ ht))
      (fun h f he => hh h f below (he ▸ ht)) p)
  · rename_i f forced below ht
    have hp : Motion L [] w [] (w.setStack below) := popBase ht
    refine hp.trans (failBase (hp.seated hw) p (hf f forced below ht)
      (hm.imp_right fun hm hn => ?_))
    refine (hm [] f below ?_).2
    change Control.split w.thread.stack = _
    rw [ht, hn]
    rfl

theorem signal (hw : w.Seated) {run : Task → World → World}
    (hs : L.leaks ∨ ∃ t below, w.thread.stack = .task t :: below)
    (hg : ∀ r, hand.count (.grave r) = 0)
    (hr : ∀ t v below, w.thread.stack = .task t :: below → v.Seated →
      (L.Frames w → (∀ f, t ≠ .frame f) → L.Frames v) → Motion L (t.tokens ++ hand) v [] (run t v)) :
    Motion L hand w [] (w.signal run) := by
  unfold World.signal
  split
  · rename_i t below ht
    have hp : Motion L hand w (t.tokens ++ hand) (w.setStack below) := pop ht
    refine hp.trans (hr t _ below ht (hp.seated hw) fun hf hn => hf.imp_right fun hf => ?_)
    unfold World.HasFrame at *
    rw [ht, frameOf_cons fun f he => hn f (Item.task.inj he)] at hf
    rwa [setStack_eq_setControl, stack_setControl hw]
  · rename_i hn
    refine .trade (.of_leaks (hs.resolve_right ?_) (fun r => .inr (hg r).symm) fun k _ =>
      Nat.zero_le _)
    rintro ⟨t, below, he⟩
    exact hn t below he

theorem registerSwitchStep (hw : w.Seated) (hh : ∀ h, L.hubs h) (hg : ∀ r, L.greenlets r)
    (name : String) (hub : Option String) :
    Motion L [] w [] (w.registerSwitchStep name hub) := by
  unfold World.registerSwitchStep World.hubStep
  split
  · rename_i e v hv
    exact .script ((Effect.hubFor_error hv).note _ _)
  · rename_i h v hv
    have e : Effect L [] w [] v := .hubFor hv
    have hr : v.Reaches h := Effect.reaches_of_hubFor hw hv
    dsimp only
    split
    · rename_i u hu
      exact .script ((e.trans (.handle (e.seated hw) hu)).note _ _)
    · rename_i r u hu
      have hm : Motion L [] w [.object r] u := .script (e.trans (.handle (e.seated hw) hu))
      have hu' : u.Reaches h := reaches_of_handle (e.seated hw) hu hr
      rcases hs : u.registerSwitch h r with ⟨x, u'⟩
      have ht : Motion L [.object r] u [.object r, .object r] (u.retain r) :=
        .retain r (.hand (by simp))
      have hm' := hm.trans (registerSwitch (hh h) (hg r) (hg _) (.inr hu') ht hs)
      cases x with
      | error e => exact hm'.pushing hw rfl (.of_eq fun k _ => by simp [Task.tokens, Except.toOption])
      | ok prev => exact hm'.pushing hw rfl (.of_eq fun k _ => by simp [Task.tokens, Except.toOption])

theorem deferStep (hw : w.Seated) (hl : L.leaks) (hh : ∀ h, L.hubs h) (name : String)
    (hub : Option String) : Motion L [] w [] (w.deferStep name hub) := by
  unfold World.deferStep World.hubStep
  split
  · rename_i e v hv
    exact .script ((Effect.hubFor_error hv).note _ _)
  · rename_i h v hv
    have e : Effect L [] w [] v := .hubFor hv
    dsimp only
    split
    · rename_i u hu
      exact .script ((e.trans (.handle (e.seated hw) hu)).note _ _)
    · rename_i r u hu
      have hm : Motion L [] w [.object r] u := .script (e.trans (.handle (e.seated hw) hu))
      have hr : Motion L [] w [.object r, .object r] (u.retain r) :=
        hm.trans (.retain r (.hand (by simp)))
      exact (hr.trans (defer (hh h) (.inr hl))).pushing hw rfl (.of_eq fun k _ => by
        simp [Task.tokens])

theorem teardownStep (hw : w.Seated) (hub : Option String) :
    Motion L [] w [] (w.teardownStep hub) := by
  unfold World.teardownStep World.hubStep
  split
  · rename_i e v hv
    exact .script ((Effect.hubFor_error hv).note _ _)
  · rename_i h v hv
    have e : Effect L [] w [] v := .hubFor hv
    have hr : v.Reaches h := Effect.reaches_of_hubFor hw hv
    have hm : Motion L [] w [.hub h] (v.holdHub h) := .script (e.trans (.holdHub h hr))
    refine hm.trans (push (hm.seated hw) (fun hf => ?_) (.of_eq fun k _ => by simp [Task.tokens]))
    have ht : (Task.teardown h).Sits (([.leaveHub h, .sortFrom v.events.length,
        .note "teardown" [.ok]] : List Task).map .task ++ (v.holdHub h).thread.stack) :=
      .guest (h := h) rfl (by simp) (by simp [Item.keeps, Task.keeps])
    exact ⟨ht, hf.push rfl⟩

theorem dropHubStep (hw : w.Seated) (hub : String) : Motion L [] w [] (w.dropHubStep hub) := by
  unfold World.dropHubStep
  split
  · exact .quiet (.note _ _)
  · rename_i h hf
    have m : Motion L [] w [.hub h] { w with named := w.named.erase hub } :=
      .names _ List.filter_sublist fun k => by
        have := Table.count_tokens_erase (fun h => [Token.hub h]) w.named hub k
        simp only [hf, Option.map_some, Option.getD_some] at this
        simp only [tableTokens, List.count_append, List.count_nil]
        omega
    exact m.pushing hw rfl (.of_eq fun k _ => by simp [Task.tokens])

theorem endHubs (hw : w.Seated) : Motion L [] w [] w.endHubs := by
  unfold World.endHubs
  split
  · exact refl
  · rename_i name h named hp
    have m : Motion L [] w [.hub h] { w with named } :=
      .names _ (Table.sublist_of_pop? hp) fun k => by
        have := Table.tokens_pop (fun h => [Token.hub h]) hp
        simp only [tableTokens, this, List.count_append, List.count_nil]
        omega
    exact (m.trans (.quiet (.event _ _))).pushing hw rfl (.of_eq fun k _ => by simp [Task.tokens])

theorem runStep (hw : w.Seated) {st : Script.Step} (hm : st.makesHub = false) (hl : L.Lets w st)
    (hi : st.isFacade = false → L.leaks ∧ (∀ h, L.hubs h) ∧ ∀ r, L.greenlets r) :
    Motion L [] w [] (w.runStep st) := by
  cases st with
  | registerSwitch => exact registerSwitchStep hw (hi rfl).2.1 (hi rfl).2.2 ..
  | defer => exact deferStep hw (hi rfl).1 (hi rfl).2.1 ..
  | teardown => exact teardownStep hw _
  | newHub => cases hm
  | dropHub hub => exact dropHubStep hw hub
  | _ => exact .script (.runStep hw rfl hl)

theorem fuelled (hw : w.Seated) (fuel : Nat) (rest : List Script.Step) :
    Motion L [] w [] ({ w with fuel }.push [.steps rest]) := by
  have hf : Motion L [] w [] { w with fuel } :=
    quiet ⟨rfl, rfl, rfl, rfl, rfl, rfl, rfl, rfl, rfl, rfl, rfl⟩
  exact hf.pushing hw rfl (.of_eq fun k _ => by simp [Task.tokens])

theorem runSteps (hw : w.Seated) {rest : List Script.Step}
    (hm : w.fuel ≠ 0 → (Task.steps rest).makesHub = false) (hg : L.Admits w (.steps rest)) :
    Motion L [] w [] (w.runSteps rest) := by
  cases rest with
  | nil => exact refl
  | cons st rest =>
    unfold World.runSteps
    simp only
    split
    · exact pushAlone hw rfl (.of_eq fun k _ => by simp [Task.tokens, Flow.tokens])
    · rename_i fuel hf
      have hp : Motion L [] w [] ({ w with fuel }.push [.steps rest]) := fuelled hw fuel rest
      exact hp.trans (runStep (hp.seated hw) (hm (by simp [hf])) (hg.lets hw fuel) fun hs =>
        hg.inner (by rw [Task.isInner, hs]; rfl))

theorem exitSlots (hw : w.Seated)
    (hh : ∀ touched, w.thread.touched = .home :: touched → w.thread.home.get? = none) :
    Motion L [] w [] w.exitSlots := by
  have ht (touched : List SlotName) : Motion L [] w [] (w.modifyThread fun t => { t with touched }) :=
    quiet (.modifyThread fun _ => ⟨rfl, rfl, rfl, rfl⟩)
  have hs (touched : List SlotName) : (w.modifyThread fun t => { t with touched }).thread =
      { w.thread with touched } := thread_modifyThread hw _
  unfold World.exitSlots
  simp only
  split
  · exact refl
  · rename_i touched _
    have hp : Motion L [] w (Obj.tokens w.thread.pending.get?)
        ((w.modifyThread fun t => { t with touched }).modifyThread fun t =>
          { t with pending := .gone }) := by
      have he := (ht touched).trans (.expire (L := L))
      rwa [hs, List.append_nil] at he
    rw [modifyThread_modifyThread] at hp
    refine hp.pushing hw ?_ (.of_eq fun k _ => by simp [Task.tokens])
    rw [List.all_append, Task.all_isAlone_toList_drop]
    rfl
  · rename_i touched he
    have hn := hh touched he
    have hv := (ht touched).trans (.vacate (by rw [hs]; exact hn))
    rw [modifyThread_modifyThread] at hv
    rw [hn]
    exact hv.pushing hw rfl (.of_eq fun k _ => by simp [Task.tokens])

private theorem withoutFiber (hand : List Token) {f : FiberId} (m : Motion L hand w [] w') :
    Motion L (hand ++ [.fiber f]) w [] w' :=
  .trans (.trade (.of_eq fun k hk => by
    rw [List.count_append, Token.count_cons_fiber hk]; rfl)) m

theorem runTask (hw : w.Seated) (hs : t.Sits w.thread.stack)
    (hm : w.fuel ≠ 0 → t.makesHub = false)
    (hx : t = .exitSlots → ∀ touched, w.thread.touched = .home :: touched →
      w.thread.home.get? = none)
    (hg : L.Admits w t) : Motion L t.handed w [] (w.runTask t) := by
  have hk {h : HubId} (hg : t.guest? = some h) : Item.keeps h w.thread.stack = true := hs.kept h hg
  have hh {h : HubId} (ht : t.hub? = some h) : L.hubs h := hg.hubs h (.inl ht)
  by_cases ht : t.isScript = true
  · have he : t.handed = t.tokens := by cases t <;> first | rfl | cases ht
    rw [he]
    exact .script (.runTask hw ht hg.toGrants)
  cases t with
  | drop r => exact drop hw (hg.parts r rfl)
  | dropPinned p => exact withoutFiber [] (dropPinned fun f hf => hg.fibers f hf)
  | destroy r => exact destroy hw r
  | reclaim r => exact reclaim r
  | unlock => exact .lock _
  | unshare f => exact withoutFiber [] (unshareTask (hg.fibers f rfl))
  | settle f => exact modifyFiber hw (hg.fibers f rfl) fun s => rfl
  | leaveHub h => exact leaveHub hw (hh rfl)
  | dropHubFields h => exact dropHubFields hw (hh rfl)
  | release h r => exact releaseStack hw (hh rfl) (hg.greenlets r rfl) fun f hf => hg.fibers f hf
  | released h r => exact released hw (hh rfl) r
  | drain h => exact drain hw (hh rfl)
  | teardown h =>
    exact teardown hw (hk rfl) (hh rfl) fun r hr =>
      ⟨hg.greenlets r hr, fun f hf => hg.fibers f ⟨r, hr, hf⟩⟩
  | teardownQueues h n => exact teardownQueues hw n (hk rfl) (hh rfl)
  | teardownCurrent h n => exact teardownCurrent hw n (hk rfl) (hh rfl)
  | teardownEnd h main n => exact teardownEnd hw (hg.greenlets main rfl) n
  | switch h target p => exact switch hw (hh rfl) hs hg.clears
  | suspend h f => exact suspend hw (hh rfl) (fun q hq => hg.fibers q hq) hg.mounted f
  | resumed h => exact resumed (hg.greenlets _ rfl) hg.clears
  | answer outcome =>
    refine signal hw (hg.heard rfl) (fun r => by
        cases outcome <;> simp [Task.handed, Task.tokens, List.count_eq_zero])
      fun t v below ht hv hf => answer hv (fun r he => hg.strands r ⟨rfl, below, he ▸ ht⟩) ?_ outcome
    rintro ⟨name, q, catches, rfl⟩
    exact hf (hg.frames (by simp [World.usesFrame, ht])) nofun
  | drive h target p => exact drive hw (hk rfl) (hh rfl) target p
  | driveTarget h target p =>
    exact driveTarget hw (hk rfl) (hh rfl) (hg.greenlets _ (.inl rfl)) (hg.greenlets _ (.inr rfl))
      (fun f hf => hg.fibers f hf) p
  | driveKilled h target p => exact driveKilled hw (hk rfl) target p
  | driveRefused h target e => exact driveRefused hw (hk rfl) target e
  | driveRegister h target f =>
    exact withoutFiber [.object target] (driveRegister hw (hk rfl) (hh rfl)
      (hg.greenlets _ (.inl rfl)) (hg.greenlets _ (.inr rfl)) f)
  | driveResume h target f =>
    exact withoutFiber [.object target] (driveResume hw (hk rfl) (hh rfl)
      (hg.fibers f rfl) target)
  | driveBack h target f =>
    exact withoutFiber [.object target] (driveBack hw (hk rfl) (hh rfl)
      (hg.greenlets _ rfl) f)
  | driveFinished h target out => exact driveFinished hw (hk rfl) target out
  | driveSuspended h target out => exact driveSuspended hw (hk rfl) target out
  | driveMain h target p => exact driveMain hw target p
  | endDriving h => exact endDriving (hh rfl)
  | result p =>
    exact signal hw (hg.heard rfl) (fun r => by simp [Task.handed, Task.tokens, List.count_eq_zero])
      fun t v below ht hv _ => result hv (fun r he => hg.strands r ⟨rfl, below, he ▸ ht⟩)
      (fun h f he => hg.hubs h (.inr ⟨rfl, f, below, he ▸ ht⟩)) p
  | entry h f => exact refl
  | steps rest => exact runSteps hw hm hg
  | leave flow =>
    exact signal hw (hg.heard rfl) (fun r => by simp [Task.handed, Task.tokens, List.count_eq_zero])
      fun t v below ht hv _ => leaveFrame hv (fun r he => hg.strands r ⟨rfl, below, he ▸ ht⟩) flow
  | hand last flow =>
    refine signal hw (hg.heard rfl) (fun r => by simp [Task.handed, Task.tokens, List.count_eq_zero])
      fun t v below ht hv hf => handOn hv (fun r he => hg.strands r ⟨rfl, below, he ▸ ht⟩) ?_
      last flow
    rintro ⟨how, rfl⟩
    exact hf (hg.frames (by simp [World.usesFrame, ht])) nofun
  | endHubs => exact endHubs hw
  | exitThread => exact exitThread hw
  | exitSlots => exact exitSlots hw (hx rfl)
  | fail p =>
    exact fault hw p (fun h f below ht => hg.hubs h (.inr ⟨rfl, f, below, ht⟩))
      (fun f forced below ht => hg.fibers f ⟨forced, below, ht⟩)
      (fun r below ht => hg.strands r ⟨rfl, below, ht⟩) hg.mounted
  | _ => exact absurd rfl ht

end Motion

end Switchyard
