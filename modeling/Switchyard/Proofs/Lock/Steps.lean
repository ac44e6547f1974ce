import Switchyard.Proofs.Lock.Tame

/-!
# Tasks that no fiber notices
-/

namespace Switchyard

open World

namespace Task

theorem all_isLight {ts : List Task} (h : ts.all isPlain = true) : ts.all isLight = true := by
  simp only [List.all_eq_true] at h ⊢
  exact fun t ht => isLight_of_isPlain (h t ht)

theorem all_isLight_dropArgs (a : Args Obj) : (dropArgs a).all isLight = true :=
  all_isLight (all_isPlain_dropArgs a)

theorem all_isLight_dropPayload (p : Payload) : (dropPayload p).all isLight = true :=
  all_isLight (all_isPlain_dropPayload p)

theorem all_isLight_dropRun (run : RunFn) : (dropRun run).all isLight = true :=
  all_isLight (all_isPlain_dropRun run)

theorem all_isLight_toList_drop (o : Option Ref) : (o.map drop).toList.all isLight = true :=
  all_isLight (all_isPlain_toList_drop o)

theorem all_isLight_dropOutgoing (o : Option Outgoing) : (dropOutgoing o).all isLight = true := by
  rcases o with _ | ⟨target, p⟩ | p
  · rfl
  · rw [dropOutgoing, List.all_cons, all_isLight_dropPayload]; rfl
  · exact all_isLight_dropPayload p

theorem all_isLight_dropFlow (f : Flow) : (dropFlow f).all isLight = true := by
  cases f with
  | ret a => exact all_isLight_dropArgs a
  | _ => rfl

theorem all_isLight_map_drop (rs : List Ref) : (rs.map drop).all isLight = true := by
  simp only [List.all_map, List.all_eq_true]
  exact fun _ _ => rfl

theorem all_isLight_getD_dropRun (o : Option RunFn) :
    ((o.map dropRun).getD []).all isLight = true := by
  cases o with
  | none => rfl
  | some run => exact all_isLight_dropRun run

theorem all_isLight_getD_dropPayload (o : Option Payload) :
    ((o.map dropPayload).getD []).all isLight = true := by
  cases o with
  | none => rfl
  | some p => exact all_isLight_dropPayload p

theorem all_isLight_cleanup {t : Task} (h : t.isLight = true) :
    t.cleanup.all isLight = true := by
  cases t with
  | switch _ _ p | deliver p | result p => exact all_isLight_dropPayload p
  | answer outcome =>
    cases outcome with
    | ok a => exact all_isLight_dropArgs a
    | error e => rfl
  | drive _ _ p | driveTarget _ _ p | driveKilled _ _ p | driveMain _ _ p =>
    simp [cleanup, all_isLight_dropPayload, isLight, isUnlock, fibers, pins]
  | driveFinished _ _ out | driveSuspended _ _ out =>
    simp [cleanup, all_isLight_dropOutgoing, isLight, isUnlock, fibers, pins]
  | runBody run args =>
    rw [cleanup, List.all_append, all_isLight_dropRun, all_isLight_dropArgs]
    rfl
  | bodyEnd run => exact all_isLight_dropRun run
  | frame f =>
    rw [cleanup, List.all_append, all_isLight_dropArgs, Bool.and_true, List.all_eq_true]
    intro t ht
    obtain ⟨l, -, hl⟩ := List.mem_filterMap.mp ht
    cases l with
    | object o => cases o <;> cases hl; rfl
    | _ => cases hl; rfl
  | leave flow => exact all_isLight_dropFlow flow
  | hand last flow =>
    rw [cleanup, List.all_append, all_isLight_dropArgs, all_isLight_dropFlow]
    rfl
  | build acc _ _ purpose =>
    cases purpose <;> simp [cleanup, all_isLight_dropArgs, isLight, isUnlock, fibers, pins]
  | rally r => exact all_isLight (Effect.all_isPlain_drops r)
  | dropPinned | reclaim | unlock | unshare | settle | suspend | driveRegister | driveResume
  | driveBack | entry => cases h
  | _ => rfl

theorem similar_cleanup (t : Task) (s : List (Item Task)) :
    Item.Similar (.task t :: s) (t.cleanup.map .task ++ s) := by
  by_cases h : t.isLight = true
  · have hu : t.isUnlock = false := by simp_all [isLight]
    exact (Item.Similar.pop hu).trans (.push (all_isLight_cleanup h))
  · cases t with
    | settle | suspend | entry =>
      exact ⟨rfl, rfl, fun f hf => List.mem_cons_of_mem _ hf, fun p hp => hp⟩
    | dropPinned | reclaim | unlock | unshare | driveRegister | driveResume | driveBack =>
      constructor <;> simp [cleanup, isUnlock, fibers, pins]
    | _ => exact absurd rfl h

end Task

namespace Tame

variable {w w' : World}

theorem seated (h : Tame w w') (hw : w.Manned) : w'.Seated := (h.manned hw).seated

theorem pushing (h : Tame w w') (hw : w.Manned) {ts : List Task}
    (ht : ts.all Task.isLight = true) : Tame w (w'.push ts) :=
  h.trans (push (h.seated hw) ht)

theorem effect (h : Tame w w') (hw : w.Manned) {hand : List Token} {w'' : World}
    (e : Effect .full [] w' hand w'') : Tame w w'' :=
  h.trans (e.tame (h.seated hw))

theorem write (level : LogLevel) (message : String) : Tame w (w.write level message) :=
  of_quiet (.write level message)

theorem raise (hw : w.Manned) (e : SwitchError) : Tame w (w.raise e) :=
  (Effect.raise e : Effect .full [] w [] (w.raise e)).tame hw.seated

theorem deliver (hw : w.Seated) (p : Payload) : Tame w (w.deliver p) := by
  have e : Effect .full (p.tokens ++ []) w [] (w.deliver p) :=
    Effect.deliver p fun _ _ => trivial
  exact e.tame hw

theorem push_setStack (w : World) (s : List (Item Task)) (ts : List Task) :
    (w.setStack s).push ts = w.setStack (ts.map .task ++ s) := by
  simp only [World.push, World.setStack, World.modifyThread, World.mk.injEq, and_true, true_and]
  apply Array.ext_getElem?
  intro i
  simp only [Array.getElem?_modify]
  split
  · cases w.threads[i]? <;> rfl
  · rfl

theorem setStack (hw : w.Manned) {s : List (Item Task)}
    (h : Item.Similar w.thread.stack s) : Tame w (w.setStack s) :=
  modifyThread hw.seated h fun _ => rfl

theorem pass (hw : w.Manned) {t signal : Task} {below : List (Item Task)}
    (hs : w.thread.stack = .task t :: below) (h : signal.isLight = true) :
    Tame w ((w.setStack below).pass t signal) := by
  rw [World.pass, push_setStack]
  refine setStack hw ?_
  rw [hs, List.map_append, List.append_assoc]
  refine (Task.similar_cleanup t below).trans (.append ?_ _)
  exact .cons_light h

theorem pop (hw : w.Manned) {t : Task} {below : List (Item Task)}
    (hs : w.thread.stack = .task t :: below) (h : t.isUnlock = false) :
    Tame w (w.setStack below) := by
  refine setStack hw ?_
  rw [hs]
  exact .pop h

theorem defer (h : HubId) (r : Ref) : Tame w (w.defer h r) :=
  ((write _ _).trans (modifyHub _ _)).trans (modifyHub _ _)

theorem drain (hw : w.Manned) (h : HubId) : Tame w (w.drain h) := by
  unfold World.drain
  simp only
  split
  · exact refl w
  · have hm : Tame w ((w.modifyHub h fun s => { s with deferred := [], foreign := [] }).modifyStats
        h fun t => { t with
          deferred := t.deferred + (w.hub h).foreign.length
          drained := t.drained + ((w.hub h).deferred ++ (w.hub h).foreign).length }) :=
      (modifyHub _ _).trans (modifyHub _ _)
    split
    · exact hm
    · refine hm.pushing hw ?_
      simp only [List.all_append, List.all_map, Bool.and_eq_true, List.all_eq_true]
      exact ⟨⟨fun _ _ => rfl, fun _ _ => rfl⟩, fun t ht => by simp at ht; subst ht; rfl⟩

theorem leaveHub (hw : w.Manned) (h : HubId) : Tame w (w.leaveHub h) := by
  unfold World.leaveHub
  simp only
  split
  · exact modifyHub _ _
  · exact (modifyHub _ _).pushing hw rfl

theorem dropHubFields (hw : w.Manned) (h : HubId) : Tame w (w.dropHubFields h) := by
  refine (modifyHub _ _).pushing hw ?_
  rw [List.all_append, List.all_append, Task.all_isLight_dropOutgoing, Task.all_isLight_map_drop]
  rfl

theorem released (hw : w.Manned) (h : HubId) (r : Ref) : Tame w (w.released h r) := by
  refine ((modifyHub _ _).trans (modifyHub _ _)).pushing hw ?_
  rw [List.all_append, Task.all_isLight_dropOutgoing]
  rfl

theorem teardownQueues (hw : w.Manned) (h : HubId) (n : Nat) :
    Tame w (w.teardownQueues h n) := by
  refine (modifyHub _ _).pushing hw ?_
  rw [List.all_append, List.all_append, Task.all_isLight_dropOutgoing, Task.all_isLight_map_drop]
  rfl

theorem teardownCurrent (hw : w.Manned) (h : HubId) (n : Nat) :
    Tame w (w.teardownCurrent h n) :=
  (((retain _).trans (retain _)).trans (modifyHub _ _)).pushing hw rfl

theorem teardownEnd (hw : w.Manned) (h : HubId) (main : Ref) (n : Nat) :
    Tame w (w.teardownEnd h main n) :=
  ((setState _ _).trans (write _ _)).pushing hw rfl

theorem endHubs (hw : w.Manned) : Tame w w.endHubs := by
  unfold World.endHubs
  split
  · exact refl w
  · rename_i name h named _
    have hn : Tame w { w with named } :=
      ⟨rfl, rfl, rfl, fun _ => .refl _, fun _ _ h => h, (·.of_eq rfl rfl)⟩
    exact (hn.trans (of_quiet (.event _ _))).pushing hw rfl

theorem exitThread (hw : w.Manned) : Tame w w.exitThread := by
  unfold World.exitThread
  simp only
  split
  · have hq : Quiet w { w with exitFrom := some w.events.length } :=
      ⟨rfl, rfl, rfl, rfl, rfl, rfl, rfl, rfl, rfl, rfl, rfl⟩
    exact (of_quiet hq).pushing hw rfl
  · exact (refl w).pushing hw rfl

private theorem slots {f : Thread → Thread}
    (hf : ∀ t, (f t).stack = t.stack ∧ (f t).parent = t.parent) (hw : w.Manned) :
    Tame w (w.modifyThread f) :=
  modifyThread hw.seated (by rw [(hf _).1]; exact .refl _) fun t => (hf t).2

theorem exitSlots (hw : w.Manned) : Tame w w.exitSlots := by
  unfold World.exitSlots
  simp only
  split
  · exact refl w
  · refine pushing (slots ?_ hw) hw ?_
    · exact fun _ => ⟨rfl, rfl⟩
    · rw [List.all_append, Task.all_isLight_toList_drop]
      rfl
  · refine pushing (slots ?_ hw) hw ?_
    · exact fun _ => ⟨rfl, rfl⟩
    · cases w.thread.home.get? <;> rfl

theorem registerSwitch (hw : w.Manned) {h : HubId} {target : Ref}
    {o : Except SwitchError Ref} (hr : w.registerSwitch h target = (o, w')) : Tame w w' := by
  unfold World.registerSwitch at hr
  simp only at hr
  split at hr
  · obtain ⟨-, rfl⟩ := Prod.mk.inj hr
    exact raise hw _
  · obtain ⟨-, rfl⟩ := Prod.mk.inj hr
    refine .trans ?_ (write _ _)
    refine .trans ?_ (modifyHub _ _)
    refine .trans ?_ (setState _ _)
    have h₁ : Tame w ((w.retain target).modifyHub h fun s => { s with current := target }) :=
      (retain _).trans (modifyHub _ _)
    split
    · exact h₁.trans (setState _ _)
    · exact h₁

theorem nextLive {h : HubId} {r next : Ref} (hn : w.nextLive h r = (next, w')) : Tame w w' := by
  unfold World.nextLive at hn
  simp only at hn
  split at hn
  · obtain ⟨-, rfl⟩ := Prod.mk.inj hn
    exact retain _
  · obtain ⟨-, rfl⟩ := Prod.mk.inj hn
    exact (write _ _).trans (retain _)

theorem drive (hw : w.Manned) (h : HubId) (target : Ref) (p : Payload) :
    Tame w (w.drive h target p) := by
  unfold World.drive
  simp only
  split
  · refine (raise hw _).pushing hw ?_
    rw [List.all_append, Task.all_isLight_dropPayload]
    rfl
  · exact (modifyHub _ _).pushing hw rfl

theorem driveKilled (hw : w.Manned) (h : HubId) (target : Ref) (p : Payload) :
    Tame w (w.driveKilled h target p) := by
  unfold World.driveKilled
  rcases hn : w.nextLive h target with ⟨next, w₁⟩
  exact (nextLive hn).pushing hw rfl

theorem driveRefused (hw : w.Manned) (h : HubId) (target : Ref) (e : SwitchError) :
    Tame w (w.driveRefused h target e) :=
  ((write _ _).trans (retain _)).pushing hw rfl

theorem driveFinished (hw : w.Manned) (h : HubId) (target : Ref) (out : Option Outgoing) :
    Tame w (w.driveFinished h target out) := by
  unfold World.driveFinished
  simp only
  rcases hn : (w.trace ("greenlet " ++ (w.greenlet target).id.text ++ " finished")).nextLive h
    target with ⟨next, w₁⟩
  have h₁ : Tame w w₁ := (write _ _).trans (nextLive hn)
  split
  · exact h₁.pushing hw rfl
  · refine h₁.pushing hw ?_
    rw [List.all_append, List.all_append, Task.all_isLight_dropOutgoing]
    rfl

theorem driveSuspended (hw : w.Manned) (h : HubId) (target : Ref) (out : Option Outgoing) :
    Tame w (w.driveSuspended h target out) := by
  unfold World.driveSuspended
  rcases hn : w.nextLive h target with ⟨next, w₁⟩
  split
  · exact (refl w).pushing hw rfl
  · exact (nextLive hn).pushing hw rfl
  · exact (nextLive hn).pushing hw rfl

theorem driveMain (hw : w.Manned) (h : HubId) (target : Ref) (p : Payload) :
    Tame w (w.driveMain h target p) := (refl w).pushing hw rfl

theorem resumed (hw : w.Manned) (h : HubId) : Tame w (w.resumed h) := by
  unfold World.resumed
  have hm : Tame w (w.modifyGreenlet (w.hub h).current fun g => { g with inbox := none }) :=
    modifyGreenlet _ fun _ h => h
  exact hm.trans (deliver (hm.seated hw) _)

theorem postResult (hw : w.Manned) (h : HubId) (f : FiberId) (p : Payload) :
    Tame w (w.postResult h f p) := by
  unfold World.postResult
  split
  · exact (refl w).pushing hw (Task.all_isLight_dropPayload p)
  · exact (modifyHub _ _).pushing hw (Task.all_isLight_dropOutgoing _)

theorem calm : Tame w w.calm := of_quiet .calm

theorem uncaught (d : Datum) : Tame w (w.uncaught d) := of_quiet (.event _ _)

theorem endFrame (hw : w.Manned) (f : Frame) (flow : Flow) : Tame w (w.endFrame f flow) :=
  (Effect.endFrame f flow).tame hw.seated

theorem answer (hw : w.Manned) (outcome : Except SwitchError (Args Obj)) :
    Tame w (w.signal (World.answer outcome)) := by
  unfold World.signal
  split
  · rename_i t below hs
    unfold World.answer
    split
    · have hp := pop hw hs rfl
      exact hp.trans ((Effect.switched (.inl trivial) _ _ _ _).tame (hp.seated hw))
    · have hp := pop hw hs rfl
      exact hp.trans ((Effect.rallyAnswered (hp.seated hw) _ _).tame (hp.seated hw))
    · exact pass hw hs rfl
  · exact refl w

theorem leave (hw : w.Manned) (flow : Flow) : Tame w (w.signal (World.leave flow)) := by
  unfold World.signal
  split
  · rename_i t below hs
    unfold World.leave
    split
    · have hp := pop hw hs rfl
      split
      · exact (hp.trans (uncaught _)).trans (endFrame ((hp.trans (uncaught _)).manned hw) _ _)
      · exact hp.trans (endFrame (hp.manned hw) _ _)
    · exact (pop hw hs rfl).trans (uncaught _)
    · refine (pop hw hs rfl).pushing hw ?_
      rw [List.all_append, Task.all_isLight_dropFlow]
      rfl
    · exact pass hw hs rfl
  · exact refl w

theorem hand (hw : w.Manned) (last : Args Obj) (flow : Flow) :
    Tame w (w.signal (World.hand last flow)) := by
  unfold World.signal
  split
  · rename_i t below hs
    unfold World.hand
    split
    · have hp := pop hw hs rfl
      exact hp.trans ((Effect.nestEnd (.inl trivial) _ _ _).tame (hp.seated hw))
    · refine (pop hw hs rfl).pushing hw ?_
      rw [List.all_append, List.all_append, Task.all_isLight_dropArgs, Task.all_isLight_dropRun]
      rfl
    · refine (pop hw hs rfl).pushing hw ?_
      rw [List.all_append, Task.all_isLight_dropArgs, Task.all_isLight_dropFlow]
      rfl
    · exact pass hw hs rfl
  · exact refl w

theorem result (hw : w.Manned) (p : Payload) : Tame w (w.signal (World.result p)) := by
  unfold World.signal
  split
  · rename_i t below hs
    unfold World.result
    split
    · have hp := pop hw hs rfl
      exact hp.trans (postResult (hp.manned hw) _ _ _)
    · exact pass hw hs rfl
  · exact refl w

theorem failTask (hw : w.Manned) (p : Panic) {t : Task} {below : List (Item Task)}
    (hs : w.thread.stack = .task t :: below) : Tame w ((w.setStack below).failTask p t) := by
  unfold World.failTask
  split
  · have hc := (pop hw hs rfl).trans calm
    have hn (name : String) (d : List Datum) : Tame w ((w.setStack below).calm.note name d) :=
      hc.trans (of_quiet (.note _ _))
    simp only
    split
    · exact (hn _ _).trans (fail ((hn _ _).seated hw) p)
    · exact hn _ _
  · exact ((pop hw hs rfl).trans calm).trans (uncaught _)
  · have hp := pop hw hs rfl
    split
    · exact hp.pushing hw rfl
    · have hc := hp.trans calm
      exact hc.trans (postResult (hc.manned hw) _ _ _)
  · have hc := (pop hw hs rfl).trans calm
    have hm := hc.trans (of_quiet (.modifyThread (f := fun t => { t with panicked := some p })
      fun _ => ⟨rfl, rfl, rfl, rfl⟩))
    exact hm.trans (exitThread (hm.manned hw))
  · exact pass hw hs rfl

theorem registerSwitchStep (hw : w.Manned) (h : String) (hub : Option String) :
    Tame w (w.registerSwitchStep h hub) := by
  unfold World.registerSwitchStep World.hubStep
  split
  · rename_i e w₁ hh
    exact (refl w).effect hw ((Effect.hubFor_error hh).note _ _)
  · rename_i s w₁ hh
    have h₁ : Tame w w₁ := (refl w).effect hw (Effect.hubFor hh)
    simp only
    split
    · rename_i w₂ ho
      exact h₁.effect hw ((Effect.handle (h₁.seated hw) ho).note _ _)
    · rename_i r w₂ ho
      have h₂ := h₁.effect hw (Effect.handle (h₁.seated hw) ho)
      split
      · rename_i e w₃ hr
        exact (h₂.trans (registerSwitch (h₂.manned hw) hr)).pushing hw rfl
      · rename_i prev w₃ hr
        exact (h₂.trans (registerSwitch (h₂.manned hw) hr)).pushing hw rfl

theorem deferStep (hw : w.Manned) (h : String) (hub : Option String) :
    Tame w (w.deferStep h hub) := by
  unfold World.deferStep World.hubStep
  split
  · rename_i e w₁ hh
    exact (refl w).effect hw ((Effect.hubFor_error hh).note _ _)
  · rename_i s w₁ hh
    have h₁ : Tame w w₁ := (refl w).effect hw (Effect.hubFor hh)
    simp only
    split
    · rename_i w₂ ho
      exact h₁.effect hw ((Effect.handle (h₁.seated hw) ho).note _ _)
    · rename_i r w₂ ho
      have h₂ := h₁.effect hw (Effect.handle (h₁.seated hw) ho)
      exact ((h₂.trans (retain r)).trans (defer s r)).pushing hw rfl

theorem teardownStep (hw : w.Manned) (hub : Option String) : Tame w (w.teardownStep hub) := by
  unfold World.teardownStep World.hubStep
  split
  · rename_i e w₁ hh
    exact (refl w).effect hw ((Effect.hubFor_error hh).note _ _)
  · rename_i s w₁ hh
    have h₁ : Tame w w₁ := (refl w).effect hw (Effect.hubFor hh)
    exact (h₁.trans (modifyHub _ _)).pushing hw rfl

theorem newHubStep (hw : w.Manned) (as_ : String) : Tame w (w.newHubStep as_) := by
  unfold World.newHubStep
  have hc := createHub w
  rcases hh : w.createHub with ⟨h, w₁⟩
  rw [hh] at hc
  have hn : Tame w₁ { w₁ with named := w₁.named.insert as_ h } :=
    ⟨rfl, rfl, rfl, fun _ => .refl _, fun _ _ h => h, (·.of_eq rfl rfl)⟩
  refine (hc.trans hn).pushing hw ?_
  cases w₁.named.find? as_ <;> rfl

theorem dropHubStep (hw : w.Manned) (hub : String) : Tame w (w.dropHubStep hub) := by
  unfold World.dropHubStep
  split
  · exact of_quiet (.note _ _)
  · have hn : Tame w { w with named := w.named.erase hub } :=
      ⟨rfl, rfl, rfl, fun _ => .refl _, fun _ _ h => h, (·.of_eq rfl rfl)⟩
    exact hn.pushing hw rfl

end Tame

end Switchyard
