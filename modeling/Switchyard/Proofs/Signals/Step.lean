import Switchyard.Proofs.Lock.Transfer
import Switchyard.Proofs.Signals.Tasks

/-!
# Runs and signals

No step brings a control stack out of order. So a signal meets the task it is meant for, and what
it passes on its way are tasks that it may pass.
-/

namespace Switchyard

open World

namespace Context

variable {c c' : Context} {t : Task}

theorem await_below (h : task t c = some .await) :
    c = .await ∨ (∃ name target catches, t = .switched name target catches) ∨
      ∃ r, t = .rally r := by
  cases t with
  | switched name target catches => exact .inr (.inl ⟨_, _, _, rfl⟩)
  | rally r => exact .inr (.inr ⟨_, rfl⟩)
  | _ => simp_all [task, guard]

theorem frame_below (h : task t c = some .frame) : c = .frame ∨ ∃ f, t = .frame f := by
  cases t with
  | frame f => exact .inr ⟨_, rfl⟩
  | rally r => cases r <;> simp_all [task, guard]
  | _ => simp_all [task, guard]

theorem end_below (h : task t c = some c') (hc : c'.isEnd = true) :
    c = c' ∨ t = .rootEnd ∨ (∃ how, t = .nestEnd how ∧ c = .frame) ∨
      ∃ run, t = .bodyEnd run ∧ c = .entry := by
  cases t with
  | rootEnd => exact .inr (.inl rfl)
  | nestEnd how =>
    obtain ⟨h, -⟩ := guard_eq_some_iff.mp h
    exact .inr (.inr (.inl ⟨_, rfl, by simpa using h⟩))
  | bodyEnd run =>
    obtain ⟨h, -⟩ := guard_eq_some_iff.mp h
    exact .inr (.inr (.inr ⟨_, rfl, by simpa using h⟩))
  | rally r =>
    cases r <;> simp only [task, guard_eq_some_iff, Option.some.injEq] at h <;>
      first
        | exact .inl h
        | exact .inl h.2
        | (subst h; cases hc)
        | (obtain ⟨-, rfl⟩ := h; cases hc)
  | _ =>
    simp only [task, guard_eq_some_iff, Option.some.injEq] at h
    first
      | exact .inl h
      | exact .inl h.2
      | (obtain ⟨-, rfl⟩ := h; cases hc)

theorem entry_below (h : task t c = some .entry) :
    c = .entry ∨ ∃ i f, t = .entry i f ∧ c = .base := by
  cases t with
  | entry i f =>
    obtain ⟨h, -⟩ := guard_eq_some_iff.mp h
    exact .inr ⟨_, _, rfl, by simpa using h⟩
  | rally r => cases r <;> simp_all [task, guard]
  | _ => simp_all [task, guard]

end Context

namespace World.Stands

variable {w w' : World} {c c' : Context}

theorem pass (hs : w.Stands c) (t : Task) {signal : Task}
    (h : Context.task signal c = some c') : (w.pass t signal).Stands c' := by
  refine hs.push ?_
  rw [Context.upon_neutral_append (Task.all_isNeutral_cleanup t)]
  exact h

theorem signal (hs : w.Stands c) {run : Task → World → World}
    (h : ∀ t w' c₁, w'.Stands c₁ → Context.task t c₁ = some c → ∃ c', (run t w').Stands c') :
    ∃ c', (w.signal run).Stands c' := by
  unfold World.signal
  split
  · rename_i t below ht
    obtain ⟨c₁, hb, hi⟩ := Context.of_cons (ht ▸ hs.context)
    exact h t _ c₁ (hs.setStack hb) hi
  · exact ⟨c, hs⟩

theorem answer (hs : w.Stands .await) (outcome : Except SwitchError (Args Obj)) :
    ∃ c, (w.signal (World.answer outcome)).Stands c := by
  refine hs.signal fun t w' c₁ hw ht => ?_
  rcases Context.await_below ht with rfl | ⟨name, target, catches, rfl⟩ | ⟨r, rfl⟩
  · unfold World.answer
    split
    · simp [Context.task, Context.guard] at ht
    · exact hw.rallyAnswered ht outcome
    · exact ⟨_, hw.pass _ rfl⟩
  · obtain ⟨hc, -⟩ := Context.guard_eq_some_iff.mp ht
    obtain rfl : c₁ = .frame := by simpa using hc
    exact ⟨_, hw.switched _ _ _ _⟩
  · exact hw.rallyAnswered ht outcome

theorem endFrame (hs : w.Stands c) (hc : c.isEnd = true) (f : Frame) (flow : Flow) :
    (w.endFrame f flow).Stands c := by
  refine hs.push ?_
  rw [Context.upon_neutral_append (Task.all_isNeutral_dropLocals f.locals)]
  simp [Context.item, Context.task, Context.guard, hc]

theorem leave (hs : w.Stands .frame) (flow : Flow) :
    ∃ c, (w.signal (World.leave flow)).Stands c := by
  refine hs.signal fun t w' c₁ hw ht => ?_
  rcases Context.frame_below ht with rfl | ⟨f, rfl⟩
  · unfold World.leave
    split
    · simp [Context.task, Context.guard, Context.isEnd] at ht
    · exact ⟨_, hw.level (.event _ _)⟩
    · exact ⟨_, hw.neutral (by rw [List.all_append, Task.all_isNeutral_dropFlow]; rfl)⟩
    · exact ⟨_, hw.pass _ rfl⟩
  · obtain ⟨hc, -⟩ := Context.guard_eq_some_iff.mp ht
    have hc : c₁.isEnd = true := by simpa using hc
    unfold World.leave
    simp only
    split
    · exact ⟨_, (hw.level (.event _ _)).endFrame hc _ _⟩
    · exact ⟨_, hw.endFrame hc _ _⟩

theorem nestEnd (hs : w.Stands .frame) (how : Nesting) (last : Args Obj) (flow : Flow) :
    ∃ c, (w.nestEnd how last flow).Stands c := by
  unfold World.nestEnd
  have h₁ := tolerant.swapLast hs last
  have note (d : Datum) : (if how = .deep then (w.swapLast last).2
      else (w.swapLast last).2.note (Script.nestingName how) [d]).Stands .frame := by
    split
    · exact h₁
    · exact tolerant.note h₁ _ _
  have leaving {v : World} (hv : v.Stands .frame) :
      (v.push (Task.dropArgs (w.swapLast last).1 ++ [.leave flow])).Stands .frame := by
    refine hv.push ?_
    rw [Context.upon_neutral_append (Task.all_isNeutral_dropArgs _)]
    rfl
  refine ⟨.frame, ?_⟩
  simp only
  split
  · exact (note _).neutral (Task.all_isNeutral_dropArgs _)
  · exact leaving (note _)
  · exact leaving (note _)
  · exact (note _).neutral (Task.all_isNeutral_dropArgs _)
  · exact leaving h₁

theorem hand (hs : w.Stands c) (hc : c.isEnd = true) (last : Args Obj) (flow : Flow) :
    ∃ c, (w.signal (World.hand last flow)).Stands c := by
  refine hs.signal fun t w' c₁ hw ht => ?_
  have drops : (Task.dropArgs last ++ Task.dropFlow flow).all Task.isNeutral = true := by
    rw [List.all_append, Task.all_isNeutral_dropArgs, Task.all_isNeutral_dropFlow]
    rfl
  have pass (ht : c₁ = c) : ∃ c, (w'.pass t (.hand last flow)).Stands c :=
    ⟨c, hw.pass t (by subst ht; simp [Context.task, Context.guard, hc])⟩
  rcases Context.end_below ht hc with rfl | rfl | ⟨how, rfl, rfl⟩ | ⟨run, rfl, rfl⟩
  · unfold World.hand
    split
    · obtain ⟨hf, -⟩ := Context.guard_eq_some_iff.mp ht
      obtain rfl : c₁ = .frame := by simpa using hf
      cases hc
    · obtain ⟨hf, -⟩ := Context.guard_eq_some_iff.mp ht
      obtain rfl : c₁ = .entry := by simpa using hf
      cases hc
    · exact ⟨c₁, hw.neutral drops⟩
    · exact pass rfl
  · exact ⟨c₁, hw.neutral drops⟩
  · exact hw.nestEnd how last flow
  · refine ⟨.entry, hw.push ?_⟩
    rw [Context.upon_neutral_append]
    · rfl
    · rw [List.all_append, Task.all_isNeutral_dropArgs, Task.all_isNeutral_dropRun]
      rfl

theorem result (hs : w.Stands .entry) (p : Payload) :
    ∃ c, (w.signal (World.result p)).Stands c := by
  refine hs.signal fun t w' c₁ hw ht => ?_
  rcases Context.entry_below ht with rfl | ⟨i, f, rfl, rfl⟩
  · unfold World.result
    split
    · exact ⟨_, tolerant.postResult hw _ _ _⟩
    · exact ⟨_, hw.pass _ rfl⟩
  · exact ⟨_, tolerant.postResult hw _ _ _⟩

theorem fault (hs : w.Stands c) (p : Panic) : ∃ c, (w.fault p).Stands c := by
  unfold World.fault
  split
  · exact ⟨c, hs⟩
  · rename_i t below ht
    obtain ⟨c₁, hb, -⟩ := Context.of_cons (ht ▸ hs.context)
    exact robust.failTask ⟨c₁, hs.setStack hb⟩ p t
  · rename_i f forced below ht
    obtain ⟨c₁, hb, -⟩ := Context.of_cons (ht ▸ hs.context)
    have h₁ := hs.setStack hb
    obtain ⟨c₂, h₂⟩ := h₁.setControl (h₁.control.land f forced)
    unfold World.failBase
    simp only
    split
    · exact ⟨c₂, h₂.level (.modifyThread fun _ => rfl)⟩
    · exact ⟨c₂, h₂.neutral rfl⟩

theorem deliver (hs : w.Stands .await) (p : Payload) : (w.deliver p).Stands .await := by
  unfold World.deliver
  cases p with
  | ok a =>
    refine (hs.level .takePending).push ?_
    rw [Context.upon_neutral_append (Task.all_isNeutral_toList_drop _)]
    rfl
  | error f => exact (hs.level (.raise _)).push rfl

theorem retarget (hs : w.Stands .await) (h : HubId) (target next : Ref) (p : Payload) :
    (w.retarget h target next p).Stands .floor :=
  hs.push rfl

private theorem answering (hs : w.Stands .await) {ts : List Task}
    (ht : ts.all Task.isNeutral = true) (e : SwitchError) :
    (w.push (ts ++ [.answer (.error e)])).Stands .await := by
  refine hs.push ?_
  rw [Context.upon_neutral_append ht]
  rfl

theorem switch (hs : w.Stands .await) (h : HubId) (target : Ref) (p : Payload) :
    ∃ c, (w.switch h target p).Stands c := by
  unfold World.switch
  split
  · exact ⟨_, (hs.level (.raise _)).answering (Task.all_isNeutral_dropPayload p) _⟩
  · simp only
    split
    · exact ⟨_, (tolerant.write hs _ _).deliver p⟩
    · have h₁ := hs.level (.retain target)
      split
      · unfold World.switchFromFiber
        simp only
        split
        · refine ⟨.await, (h₁.level (.raise _)).push ?_⟩
          rw [Context.upon_neutral_append (Task.all_isNeutral_dropPayload p)]
          rfl
        · refine ⟨.floor, (tolerant.modifyHub h₁ h _).push ?_⟩
          rw [Context.upon_neutral_append (Task.all_isNeutral_dropOutgoing _)]
          rfl
      · exact ⟨.floor, h₁.push rfl⟩

theorem suspend (hs : w.Stands .await) (h : HubId) (f : FiberId) :
    ∃ c, (w.suspend h f).Stands c := by
  have h₁ : (w.push [.resumed h]).Stands .floor := hs.push rfl
  unfold World.suspend
  split
  · split
    · rename_i k hk
      exact hs.setControl (h₁.control.suspend hk)
    · exact ⟨_, tolerant.fail hs _⟩
  · refine ⟨.await, (tolerant.modifyHub hs h _).push ?_⟩
    rw [Context.upon_neutral_append (Task.all_isNeutral_dropOutgoing _)]
    rfl

theorem resumed (hs : w.Stands .await) (h : HubId) : (w.resumed h).Stands .await :=
  (tolerant.modifyGreenlet hs _ _).deliver _

theorem drive (hs : w.Stands .await) (h : HubId) (target : Ref) (p : Payload) :
    ∃ c, (w.drive h target p).Stands c := by
  unfold World.drive
  simp only
  split
  · refine ⟨.await, (hs.level (.raise _)).push ?_⟩
    rw [Context.upon_neutral_append (Task.all_isNeutral_dropPayload p)]
    rfl
  · exact ⟨.floor, (tolerant.modifyHub hs h _).push rfl⟩

theorem driveTarget (hs : w.Stands .await) (h : HubId) (target : Ref) (p : Payload) :
    ∃ c, (w.driveTarget h target p).Stands c := by
  unfold World.driveTarget
  simp only
  split
  · have h₁ := tolerant.registerSwitch hs h target
    split
    · rename_i prev w₁ hr
      rw [hr] at h₁
      exact ⟨.floor, h₁.push rfl⟩
    · rename_i e w₁ hr
      rw [hr] at h₁
      refine ⟨.await, h₁.push ?_⟩
      rw [List.append_assoc, Context.upon_neutral_append rfl,
        Context.upon_neutral_append (Task.all_isNeutral_dropPayload p)]
      rfl
  · split
    · rename_i f _
      have h₁ := tolerant.write hs .debug ("greenlet " ++ (w.greenlet target).id.text ++
        ": killed before start")
      refine ⟨.floor, (tolerant.modifyGreenlet h₁ _ _).push ?_⟩
      rw [Context.upon_neutral_append]
      · rfl
      · cases (w.greenlet target).run with
        | none => rfl
        | some run => exact Task.all_isNeutral_dropRun run
    · split
      · rename_i _ _ _ _ f _ _
        have h₁ := hs.setSaved (hs.control.share f) rfl
        refine ⟨.floor, (tolerant.modifyGreenlet h₁ _ _).push ?_⟩
        rw [Context.upon_neutral_append]
        · rfl
        · cases (w.greenlet target).inbox with
          | none => rfl
          | some q => exact Task.all_isNeutral_dropPayload q
      · rename_i run args _ _ _
        have hd : (Task.dropRun run ++ Task.dropArgs args).all Task.isNeutral = true := by
          rw [List.all_append, Task.all_isNeutral_dropRun, Task.all_isNeutral_dropArgs]
          rfl
        have he : ∃ c, Context.base.upon
            ([Task.runBody run args, .entry h w.fibers.size].map .task) = some c := ⟨_, rfl⟩
        have hk := (hs.control.create he hd).share w.fibers.size
        have h₁ := hs.setSaved hk rfl
        exact ⟨.floor, (tolerant.modifyStats (tolerant.modifyGreenlet h₁ _ _) _ _).push rfl⟩
      · refine ⟨.floor, (tolerant.modifyGreenlet hs _ _).push ?_⟩
        rw [Context.upon_neutral_append]
        · rfl
        · rw [List.all_append, Task.all_isNeutral_dropPayload]
          cases (w.greenlet target).run with
          | none => rfl
          | some run => rw [Option.map_some, Option.getD_some, Task.all_isNeutral_dropRun]; rfl

theorem driveRegister (hs : w.Stands .await) (h : HubId) (target : Ref) (f : FiberId) :
    ∃ c, (w.driveRegister h target f).Stands c := by
  unfold World.driveRegister
  have h₁ := tolerant.registerSwitch hs h target
  split
  · rename_i prev w₁ hr
    rw [hr] at h₁
    exact ⟨.floor, h₁.push rfl⟩
  · rename_i e w₁ hr
    rw [hr] at h₁
    exact ⟨.await, h₁.push rfl⟩

theorem driveResume (hs : w.Stands .await) (h : HubId) (target : Ref) (f : FiberId) :
    ∃ c, (w.driveResume h target f).Stands c := by
  have h₁ : ((w.modifyHub h fun s => { s with runningFiber := true }).push
      [.driveBack h target f]).Stands .floor := (tolerant.modifyHub hs h _).push rfl
  unfold World.driveResume
  simp only
  split
  · rename_i k hk
    exact h₁.setControl (h₁.control.resume hk)
  · exact ⟨_, tolerant.fail h₁ _⟩

theorem driveBack (hs : w.Stands .await) (h : HubId) (target : Ref) (f : FiberId) :
    ∃ c, (w.driveBack h target f).Stands c := by
  have h₁ := tolerant.modifyHub hs h fun s => { s with runningFiber := false, outgoing := none }
  unfold World.driveBack
  simp only
  split
  · refine ⟨.floor, (tolerant.modifyStats (tolerant.modifyGreenlet h₁ _ _) _ _).push ?_⟩
    rw [Context.upon_neutral_append]
    · rfl
    · cases ((w.modifyHub h fun s =>
        { s with runningFiber := false, outgoing := none }).greenlet target).fiber <;> rfl
  · exact ⟨.floor, h₁.push rfl⟩

theorem driveFinished (hs : w.Stands .await) (h : HubId) (target : Ref) (out : Option Outgoing) :
    ∃ c, (w.driveFinished h target out).Stands c := by
  have h₁ := tolerant.nextLive
    (tolerant.write hs .trace ("greenlet " ++ (w.greenlet target).id.text ++ " finished"))
    h target
  unfold World.driveFinished
  simp only
  split
  · exact ⟨_, h₁.retarget _ _ _ _⟩
  · refine ⟨.floor, h₁.push ?_⟩
    rw [Context.upon_neutral_append]
    · rfl
    · rw [List.all_append, Task.all_isNeutral_dropOutgoing]
      rfl

theorem driveSuspended (hs : w.Stands .await) (h : HubId) (target : Ref) (out : Option Outgoing) :
    ∃ c, (w.driveSuspended h target out).Stands c := by
  have h₁ := tolerant.nextLive hs h target
  rcases out with _ | (⟨next, p⟩ | p)
  · exact ⟨_, h₁.retarget _ _ _ _⟩
  · exact ⟨_, hs.retarget _ _ _ _⟩
  · exact ⟨_, h₁.retarget _ _ _ _⟩

theorem driveKilled (hs : w.Stands .await) (h : HubId) (target : Ref) (p : Payload) :
    ∃ c, (w.driveKilled h target p).Stands c :=
  ⟨_, (tolerant.nextLive hs h target).retarget _ _ _ _⟩

theorem driveRefused (hs : w.Stands .await) (h : HubId) (target : Ref) (e : SwitchError) :
    ∃ c, (w.driveRefused h target e).Stands c :=
  ⟨_, (tolerant.modifyObject (tolerant.write hs _ _) _ _).retarget _ _ _ _⟩

theorem runBody (hs : w.Stands .entry) (run : RunFn) (args : Args Obj) :
    ∃ c, (w.runBody run args).Stands c := by
  unfold World.runBody
  split
  · exact ⟨.frame, (hs.level (.event _ _)).push rfl⟩
  · exact ⟨.entry, hs.push rfl⟩
  · exact ⟨.entry, hs.push rfl⟩

theorem runTask (hs : w.Stands c) {t : Task} (ht : Context.task t c = some c') :
    ∃ c, (w.runTask t).Stands c := by
  have needs {d : Context} (h : Context.guard (c = d) c' = some c') : c = d := by
    simpa using (Context.guard_eq_some_iff.mp h).1
  have await {d : Context} (h : Context.guard (c = .await) d = some c') : c = .await := by
    simpa using (Context.guard_eq_some_iff.mp h).1
  have here {w' : World} {d : Context} (h : w'.Stands d) : ∃ c, w'.Stands c := ⟨d, h⟩
  cases t with
  | drop r => exact robust.drop ⟨c, hs⟩ r
  | dropCanary x => exact robust.dropCanary ⟨c, hs⟩ x
  | dropPinned p => exact robust.dropPinned ⟨c, hs⟩ p
  | destroy r => exact robust.destroy ⟨c, hs⟩ r
  | reclaim | unlock => exact here (hs.level (.of_eq rfl rfl rfl))
  | unshare f => exact robust.unshare ⟨c, hs⟩ f
  | settle f => exact here (hs.modifyFiber f fun _ h => h)
  | leaveHub h => exact here (tolerant.leaveHub hs h)
  | dropHubFields h => exact here (tolerant.dropHubFields hs h)
  | release h r => exact robust.release ⟨c, hs⟩ h r
  | released h r => exact here (tolerant.released hs h r)
  | drain h => exact robust.drain ⟨c, hs⟩ h
  | teardown h => exact robust.teardown ⟨c, hs⟩ h
  | teardownQueues h n => exact robust.teardownQueues ⟨c, hs⟩ h n
  | teardownCurrent h n => exact robust.teardownCurrent ⟨c, hs⟩ h n
  | teardownEnd h main n => exact robust.teardownEnd ⟨c, hs⟩ h main n
  | switch h target p => obtain rfl := await ht; exact hs.switch h target p
  | deliver p => obtain rfl := await ht; exact here (hs.deliver p)
  | suspend h f => obtain rfl := await ht; exact hs.suspend h f
  | resumed h => obtain rfl := await ht; exact here (hs.resumed h)
  | refuse e =>
    obtain rfl := await ht
    exact ⟨.await, (hs.level (.raise e)).push rfl⟩
  | answer outcome => obtain rfl := await ht; exact hs.answer outcome
  | drive h target p => obtain rfl := await ht; exact hs.drive h target p
  | driveTarget h target p => obtain rfl := await ht; exact hs.driveTarget h target p
  | driveKilled h target p => obtain rfl := await ht; exact hs.driveKilled h target p
  | driveRefused h target e => obtain rfl := await ht; exact hs.driveRefused h target e
  | driveRegister h target f => obtain rfl := await ht; exact hs.driveRegister h target f
  | driveResume h target f => obtain rfl := await ht; exact hs.driveResume h target f
  | driveBack h target f => obtain rfl := await ht; exact hs.driveBack h target f
  | driveFinished h target out => obtain rfl := await ht; exact hs.driveFinished h target out
  | driveSuspended h target out => obtain rfl := await ht; exact hs.driveSuspended h target out
  | driveMain h target p =>
    obtain rfl := await ht
    exact ⟨.await, hs.push rfl⟩
  | endDriving h => exact here (tolerant.modifyHub hs h _)
  | runBody run args =>
    obtain rfl : c = .entry := by simpa using (Context.guard_eq_some_iff.mp ht).1
    exact hs.runBody run args
  | bodyEnd run => exact here (hs.neutral (Task.all_isNeutral_dropRun run))
  | switched => exact here (hs.neutral rfl)
  | entry | mainGuard | nestEnd | rootEnd => exact here hs
  | result p =>
    obtain rfl : c = .entry := by simpa using (Context.guard_eq_some_iff.mp ht).1
    exact hs.result p
  | steps rest =>
    obtain rfl : c = .frame := by simpa using (Context.guard_eq_some_iff.mp ht).1
    exact hs.runSteps rest
  | mainSteps rest =>
    obtain rfl : c = .frame := by simpa using (Context.guard_eq_some_iff.mp ht).1
    cases rest with
    | nil => exact here hs
    | cons st rest => exact ⟨.frame, hs.push rfl⟩
  | loop n steps =>
    obtain rfl : c = .frame := by simpa using (Context.guard_eq_some_iff.mp ht).1
    cases n with
    | zero => exact here hs
    | succ n => exact ⟨.frame, hs.push rfl⟩
  | frame f => exact here (hs.endFrame (Context.guard_eq_some_iff.mp ht).1 f .through)
  | leave flow =>
    obtain rfl : c = .frame := by simpa using (Context.guard_eq_some_iff.mp ht).1
    exact hs.leave flow
  | hand last flow => exact hs.hand (Context.guard_eq_some_iff.mp ht).1 last flow
  | dropEnd name => exact here (hs.level (.event _ _))
  | note name result => exact here (tolerant.note hs name result)
  | build acc positional keywords purpose =>
    obtain rfl : c = .frame := by simpa using (Context.guard_eq_some_iff.mp ht).1
    exact hs.build acc positional keywords purpose
  | sortFrom => exact here (hs.level (.of_eq rfl rfl rfl))
  | join => exact here (tolerant.note hs _ _)
  | endHandles => exact here (hs.neutral (by simp [Task.isNeutral]))
  | endHandle name => exact here (tolerant.endHandle hs name)
  | endObjects => exact here (tolerant.endObjects hs)
  | endOuts => exact here (tolerant.endOuts hs)
  | endStats => exact here (tolerant.endStats hs)
  | endHubs => exact here (tolerant.endHubs hs)
  | exitThread => exact here (tolerant.exitThread hs)
  | exitSlots => exact here (tolerant.exitSlots hs)
  | rally r => exact hs.rallyRun ht
  | fail p => exact hs.fault p

theorem yield (hs : w.Stands c) {i : ThreadId} (hi : 0 < i) (hn : i ≤ w.threads.size) :
    ∃ c, { w with active := i }.Stands c := by
  obtain ⟨c', hc⟩ := hs.everywhere (i - 1)
  refine ⟨c', ⟨hi, hn⟩, ?_, hs.everywhere, hs.saved⟩
  rw [stack_eq_stackAt]
  exact hc

end World.Stands

namespace World

variable {w₀ w : World} {tr : List World}

/-- The step that is about to run does not touch a thread state behind the back of its thread. -/
def OnFacade (w : World) : Prop :=
  ∀ st rest below, w.thread.stack = .task (.steps (st :: rest)) :: below → st.isFacade = true

instance : DecidablePred OnFacade := fun w =>
  let ok : Bool := match w.thread.stack with
    | .task (.steps (st :: _)) :: _ => st.isFacade
    | _ => true
  decidable_of_iff (ok = true) <| by
    unfold OnFacade ok
    split
    · rename_i st rest below hs
      simp [hs]
    · rename_i hn
      simp only [true_iff]
      exact fun st rest below hs => absurd hs (hn st rest below)

theorem Stands.next {c : Context} (hs : w.Stands c) (hm : w.Manned) (hr : w.isHalted = false) :
    ∃ c, w.next.Stands c := by
  unfold World.next
  split
  · rename_i ht
    have ha : 1 < w.active := by
      unfold isHalted at hr
      simpa [ht] using hr
    obtain ⟨h₁, h₂⟩ := hm.parents _ _ hm.seated.getElem? (by unfold ThreadId at *; omega)
    exact hs.yield h₁ h₂
  · rename_i f forced below ht
    obtain ⟨c₁, hb, -⟩ := Context.of_cons (ht ▸ hs.context)
    have h₁ := hs.setStack hb
    exact h₁.setControl (h₁.control.land f forced)
  · rename_i t below ht
    obtain ⟨c₁, hb, hi⟩ := Context.of_cons (ht ▸ hs.context)
    exact (hs.setStack hb).runTask hi

private theorem stands_of_bare (ht : w.threads = #[{}]) (ha : w.active = 1) (hf : w.fibers = #[]) :
    w.Stands .floor where
  seated := by simp [Seated, ht, ha]
  context := by
    rw [stack_eq_stackAt]
    simp [stackAt, ht, ha]
    rfl
  everywhere i := by
    refine ⟨.floor, ?_⟩
    have : w.stackAt i = [] := by
      unfold stackAt
      rw [ht]
      rcases i with _ | i <;> rfl
    rw [this]
    rfl
  saved f s h := by simp [hf] at h

theorem Starts.stands (h : w.Starts) : ∃ c, w.Stands c := by
  cases h with
  | script env bodies main fuel =>
    have h₀ : { World.fresh env with bodies, fuel }.Stands .floor := stands_of_bare rfl rfl rfl
    exact ⟨.frame, h₀.push rfl⟩
  | rally env =>
    have h₀ : (World.fresh env).Stands .floor := stands_of_bare rfl rfl rfl
    exact ⟨.floor, h₀.push rfl⟩

/-- Every control stack is in order at every point of a run. -/
theorem Run.stands (hs : w₀.Starts) (h : Run w₀ tr w) : ∃ c, w.Stands c := by
  induction h with
  | start => exact hs.stands
  | step h hw ih =>
    obtain ⟨c, hc⟩ := ih
    obtain ⟨home, hl⟩ := h.locked hs
    exact hc.next hl.manned hw
  | yield h hi hn ih =>
    obtain ⟨c, hc⟩ := ih
    exact hc.yield hi hn

end World

end Switchyard
