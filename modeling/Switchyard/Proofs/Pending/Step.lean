import Switchyard.Proofs.Pending.Script

/-!
# Errors of a step

One step of the machine adds an answer with an error only to the stack of the active thread. It has
registered the error then, or it has taken up a stack that was set aside with the answer on it.
-/

namespace Switchyard

namespace World

namespace Tacit

variable {e : SwitchError} {w₀ w w' : World}

theorem pass (h : Tacit e w₀ w) (t : Task) {signal : Task} (hs : signal.isSilent = true) :
    Tacit e w₀ (w.pass t signal) := by
  refine h.silent ?_
  rw [List.all_append, Task.all_isSilent_of_neutral (Task.all_isNeutral_cleanup t)]
  simp [hs]

theorem endFrame (h : Tacit e w₀ w) (f : Frame) (flow : Flow) : Tacit e w₀ (w.endFrame f flow) := by
  refine h.silent ?_
  rw [List.all_append, Task.all_isSilent_of_neutral (Task.all_isNeutral_dropLocals f.locals)]
  rfl

theorem leave (h : Tacit e w₀ w) (flow : Flow) (t : Task) : Tacit e w₀ (w.leave flow t) := by
  unfold World.leave
  split
  · split
    · exact (h.level (.event _ _)).endFrame _ _
    · exact h.endFrame _ _
  · exact h.level (.event _ _)
  · refine h.silent ?_
    rw [List.all_append, Task.all_isSilent_of_neutral (Task.all_isNeutral_dropFlow _)]
    rfl
  · exact h.pass _ rfl

theorem nestEnd (h : Tacit e w₀ w) (how : Nesting) (last : Args Obj) (flow : Flow) :
    Tacit e w₀ (w.nestEnd how last flow) := by
  unfold World.nestEnd
  have h₁ := tolerant.swapLast h last
  have drops := Task.all_isNeutral_dropArgs (w.swapLast last).1
  have note (d : Datum) : Tacit e w₀ (if how = .deep then (w.swapLast last).2
      else (w.swapLast last).2.note (Script.nestingName how) [d]) := by
    split
    · exact h₁
    · exact tolerant.note h₁ _ _
  have leaving {v : World} (hv : Tacit e w₀ v) :
      Tacit e w₀ (v.push (Task.dropArgs (w.swapLast last).1 ++ [.leave flow])) := by
    refine hv.silent ?_
    rw [List.all_append, Task.all_isSilent_of_neutral drops]
    rfl
  simp only
  split
  · exact tolerant.neutral (note _) drops
  · exact leaving (note _)
  · exact leaving (note _)
  · exact tolerant.neutral (note _) drops
  · exact leaving h₁

theorem hand (h : Tacit e w₀ w) (last : Args Obj) (flow : Flow) (t : Task) :
    Tacit e w₀ (w.hand last flow t) := by
  have drops := Task.all_isNeutral_dropArgs last
  unfold World.hand
  split
  · exact h.nestEnd _ last flow
  · refine h.silent ?_
    rw [List.all_append, List.all_append, Task.all_isSilent_of_neutral drops,
      Task.all_isSilent_of_neutral (Task.all_isNeutral_dropRun _)]
    rfl
  · refine tolerant.neutral h ?_
    rw [List.all_append, drops, Task.all_isNeutral_dropFlow]
    rfl
  · exact h.pass _ rfl

theorem result (h : Tacit e w₀ w) (p : Payload) (t : Task) : Tacit e w₀ (w.result p t) := by
  unfold World.result
  split
  · exact tolerant.postResult h _ _ _
  · exact h.pass _ rfl

theorem signal (h : Tacit e w₀ w) {run : Task → World → World}
    (hr : ∀ t v, Tacit e w₀ v → Tacit e w₀ (run t v)) : Tacit e w₀ (w.signal run) := by
  unfold World.signal
  split
  · exact hr _ _ (h.tail ‹_›)
  · exact h

theorem fault (h : Tacit e w₀ w) (p : Panic) : Tacit e w₀ (w.fault p) := by
  unfold World.fault
  split
  · exact h
  · exact robust.failTask (h.tail ‹_›) p _
  · have h₁ := h.tail ‹_›
    have h₂ := h₁.setControl (.land ‹_› ‹_›)
    unfold World.failBase
    simp only
    split
    · exact h₂.level (.modifyThread fun _ => rfl)
    · exact tolerant.neutral h₂ rfl

theorem refuse (h : Tacit e w₀ w) (hs : SameSlot w₀ w) (x : SwitchError) :
    Gives e w₀ (w.refuse x) :=
  raising h hs (show [].all Task.isSilent = true from rfl)

theorem deliver (h : Tacit e w₀ w) (hs : SameSlot w₀ w) (p : Payload) : Gives e w₀ (w.deliver p) := by
  unfold World.deliver
  cases p with
  | ok a =>
    refine ((h.level .takePending).silent ?_).gives
    rw [List.all_append, Task.all_isSilent_of_neutral (Task.all_isNeutral_toList_drop _)]
    rfl
  | error f => exact h.refuse hs _

theorem retarget (h : Tacit e w₀ w) (i : HubId) (target next : Ref) (p : Payload) :
    Tacit e w₀ (w.retarget i target next p) :=
  h.silent rfl

theorem switchFromFiber (h : Tacit e w₀ w) (hs : SameSlot w₀ w) (i : HubId) (target : Ref)
    (p : Payload) : Gives e w₀ (w.switchFromFiber i target p) := by
  have drops := Task.all_isSilent_of_neutral (Task.all_isNeutral_dropPayload p)
  unfold World.switchFromFiber
  simp only
  split
  · have hd : (Task.dropPayload p ++ [Task.drop target]).all Task.isSilent = true := by
      rw [List.all_append, drops]
      rfl
    have hg := raising (x := .threadExited) h hs hd
    rwa [List.append_assoc] at hg
  · refine ((tolerant.modifyHub h i _).silent ?_).gives
    rw [List.all_append, Task.all_isSilent_of_neutral (Task.all_isNeutral_dropOutgoing _)]
    rfl

theorem switch (h : Tacit e w₀ w) (hs : SameSlot w₀ w) (i : HubId) (target : Ref) (p : Payload) :
    Gives e w₀ (w.switch i target p) := by
  unfold World.switch
  split
  · exact raising h hs (Task.all_isSilent_of_neutral (Task.all_isNeutral_dropPayload p))
  · simp only
    split
    · exact (tolerant.write h _ _).deliver (hs.trans (.of_threads rfl rfl)) p
    · have h₁ := h.level (.retain target)
      split
      · exact h₁.switchFromFiber (hs.trans (.of_threads rfl rfl)) i target p
      · exact (h₁.silent rfl).gives

theorem suspend (h : Tacit e w₀ w) (hf : w.fibers = w₀.fibers) (i : HubId) (f : FiberId) :
    Gives e w₀ (w.suspend i f) := by
  unfold World.suspend
  split
  · split
    · rename_i k hk
      have h₁ : Tacit e w₀ (w.push [.resumed i]) := h.silent rfl
      have hc := Control.count_suspend (e := e) hk
      have hn : ¬ TakesUp e w₀ (w.push [.resumed i]) := by
        rintro ⟨g, he, hr⟩
        have hg : (w.push [.resumed i]).control.fiberD g = w₀.control.fiberD g := by
          have hc : (w.push [.resumed i]).control.fibers = w₀.control.fibers := hf
          rw [Control.fiberD, Control.fiberD, hc]
        rw [hg] at hr
        rw [hr] at he
        cases he
      have count (j : Nat) := (h₁.count j).resolve_right hn
      have hk (j : Nat) : ((w.setControl k).returning j).count e ≤ (w₀.returning j).count e := by
        have hst : (w.setControl k).stackAt j = if j = w.active - 1 then k.stack else w.stackAt j :=
          stackAt_modifyThread h.seated _ j
        unfold World.returning
        rw [hst]
        split
        · subst_vars
          refine Nat.le_trans hc ?_
          have hj := count (w.active - 1)
          rwa [World.returning, ← show (w.push [.resumed i]).active = w.active from rfl,
            ← stack_eq_stackAt] at hj
        · rename_i hj
          have hj' := count j
          rwa [returning_push h.seated, if_neg hj] at hj'
      exact ⟨fun j _ => .inl (hk j), .inl (hk _)⟩
    · exact (tolerant.fail h _).gives
  · have h₁ := tolerant.modifyHub h i fun s => { s with outgoing := none }
    refine (h₁.silent ?_).gives
    rw [List.all_append, Task.all_isSilent_of_neutral (Task.all_isNeutral_dropOutgoing _)]
    rfl

theorem resumed (h : Tacit e w₀ w) (hs : SameSlot w₀ w) (i : HubId) : Gives e w₀ (w.resumed i) :=
  (tolerant.modifyGreenlet h _ _).deliver (hs.trans (.of_threads rfl rfl)) _

theorem drive (h : Tacit e w₀ w) (hs : SameSlot w₀ w) (i : HubId) (target : Ref) (p : Payload) :
    Gives e w₀ (w.drive i target p) := by
  unfold World.drive
  simp only
  split
  · have hd : (Task.dropPayload p ++ [Task.drop target]).all Task.isSilent = true := by
      rw [List.all_append, Task.all_isSilent_of_neutral (Task.all_isNeutral_dropPayload p)]
      rfl
    have hg := raising (x := .switchDuringRelease) h hs hd
    rwa [List.append_assoc] at hg
  · exact ((tolerant.modifyHub h i _).silent rfl).gives

theorem driveTarget (h : Tacit e w₀ w) (hs : SameSlot w₀ w) (i : HubId) (target : Ref)
    (p : Payload) : Gives e w₀ (w.driveTarget i target p) := by
  have payload := Task.all_isSilent_of_neutral (Task.all_isNeutral_dropPayload p)
  have unrun (o : Option RunFn) : ((o.map Task.dropRun).getD []).all Task.isSilent = true := by
    cases o with
    | none => rfl
    | some run => exact Task.all_isSilent_of_neutral (Task.all_isNeutral_dropRun run)
  unfold World.driveTarget
  simp only
  split
  · have h₁ := tolerant.registerSwitch h i target
    split
    · rename_i prev v hr
      rw [hr] at h₁
      exact (h₁.silent rfl).gives
    · rename_i x v hr
      rw [hr] at h₁
      have hd : ([Task.endDriving i] ++ Task.dropPayload p ++ [Task.drop target]).all
          Task.isSilent = true := by
        rw [List.all_append, List.all_append, payload]
        rfl
      have hg := answering h₁ (.registerSwitch hs h.seated hr) hd
        (show [].all Task.isSilent = true from rfl)
      rwa [List.append_assoc] at hg
  · split
    · refine ((tolerant.modifyGreenlet (tolerant.write h _ _) target _).silent ?_).gives
      rw [List.all_append, unrun]
      rfl
    · split
      · rename_i f _ _
        have h₁ := h.setControl (.share f)
        refine ((tolerant.modifyGreenlet h₁ target _).silent ?_).gives
        rw [List.all_append]
        cases (w.greenlet target).inbox with
        | none => rfl
        | some q =>
          rw [Option.map_some, Option.getD_some,
            Task.all_isSilent_of_neutral (Task.all_isNeutral_dropPayload q)]
          rfl
      · rename_i run args _ _ _
        have he : ([Task.runBody run args, .entry i w.fibers.size] ++
            (Task.dropRun run ++ Task.dropArgs args)).all Task.isSilent = true := by
          rw [List.all_append, List.all_append,
            Task.all_isSilent_of_neutral (Task.all_isNeutral_dropRun run),
            Task.all_isSilent_of_neutral (Task.all_isNeutral_dropArgs args)]
          rfl
        have h₁ := h.setControl (.trans (.create he) (.share w.fibers.size))
        exact ((tolerant.modifyStats (tolerant.modifyGreenlet h₁ target _) i _).silent rfl).gives
      · refine ((tolerant.modifyGreenlet h target _).silent ?_).gives
        rw [List.all_append, List.all_append, unrun, payload]
        rfl

theorem driveRegister (h : Tacit e w₀ w) (hs : SameSlot w₀ w) (i : HubId) (target : Ref)
    (f : FiberId) : Gives e w₀ (w.driveRegister i target f) := by
  unfold World.driveRegister
  have h₁ := tolerant.registerSwitch h i target
  split
  · rename_i prev v hr
    rw [hr] at h₁
    exact (h₁.silent rfl).gives
  · rename_i x v hr
    rw [hr] at h₁
    have ht : [Task.unshare f, .endDriving i, .drop target].all Task.isSilent = true := rfl
    exact answering h₁ (.registerSwitch hs h.seated hr) ht
      (show [].all Task.isSilent = true from rfl)

theorem driveResume (h : Tacit e w₀ w) (i : HubId) (target : Ref) (f : FiberId) :
    Tacit e w₀ (w.driveResume i target f) := by
  have h₁ : Tacit e w₀ ((w.modifyHub i fun s => { s with runningFiber := true }).push
      [.driveBack i target f]) := (tolerant.modifyHub h i _).silent rfl
  unfold World.driveResume
  simp only
  split
  · rename_i k hk
    exact h₁.setControl (.resume hk)
  · exact tolerant.fail h₁ _

theorem driveBack (h : Tacit e w₀ w) (i : HubId) (target : Ref) (f : FiberId) :
    Tacit e w₀ (w.driveBack i target f) := by
  have h₁ := tolerant.modifyHub h i fun s => { s with runningFiber := false, outgoing := none }
  have pinned (o : Option (Pinned FiberId)) :
      (o.map Task.dropPinned).toList.all Task.isSilent = true := by
    cases o <;> rfl
  unfold World.driveBack
  simp only
  split
  · refine (tolerant.modifyStats (tolerant.modifyGreenlet h₁ _ _) _ _).silent ?_
    rw [List.all_append, pinned]
    rfl
  · exact h₁.silent rfl

theorem driveFinished (h : Tacit e w₀ w) (i : HubId) (target : Ref) (out : Option Outgoing) :
    Tacit e w₀ (w.driveFinished i target out) := by
  have h₁ := tolerant.nextLive (tolerant.write h .trace
    ("greenlet " ++ (w.greenlet target).id.text ++ " finished")) i target
  unfold World.driveFinished
  simp only
  split
  · exact h₁.retarget _ _ _ _
  · refine h₁.silent ?_
    rw [List.all_append, List.all_append,
      Task.all_isSilent_of_neutral (Task.all_isNeutral_dropOutgoing _)]
    rfl

theorem driveSuspended (h : Tacit e w₀ w) (i : HubId) (target : Ref) (out : Option Outgoing) :
    Tacit e w₀ (w.driveSuspended i target out) := by
  have h₁ := tolerant.nextLive h i target
  rcases out with _ | (⟨next, p⟩ | p)
  · exact h₁.retarget _ _ _ _
  · exact h.retarget _ _ _ _
  · exact h₁.retarget _ _ _ _

theorem runBody (h : Tacit e w₀ w) (run : RunFn) (args : Args Obj) :
    Tacit e w₀ (w.runBody run args) := by
  unfold World.runBody
  split
  · exact (h.level (.event _ _)).silent rfl
  · exact h.silent rfl
  · exact h.silent rfl

theorem runTask (h : Tacit e w₀ w) (hs : SameSlot w₀ w) (hf : w.fibers = w₀.fibers) {t : Task}
    (ht : ∀ outcome, t ≠ .answer outcome) : Gives e w₀ (w.runTask t) := by
  cases t with
  | drop r => exact (robust.drop h r).gives
  | dropCanary x => exact (robust.dropCanary h x).gives
  | dropPinned p => exact (robust.dropPinned h p).gives
  | destroy r => exact (robust.destroy h r).gives
  | reclaim r =>
    have h₁ : Tacit e w₀ (w.reclaim r) := h.level (.of_eq rfl rfl rfl)
    exact h₁.gives
  | unlock =>
    have h₁ : Tacit e w₀ w.unlock := h.level (.of_eq rfl rfl rfl)
    exact h₁.gives
  | unshare f => exact (robust.unshare h f).gives
  | settle f => exact (h.modifyFiber f (g := Fiber.settle) fun _ => rfl).gives
  | leaveHub i => exact (tolerant.leaveHub h i).gives
  | dropHubFields i => exact (tolerant.dropHubFields h i).gives
  | release i r => exact (robust.release h i r).gives
  | released i r => exact (tolerant.released h i r).gives
  | drain i => exact (robust.drain h i).gives
  | teardown i => exact (robust.teardown h i).gives
  | teardownQueues i n => exact (robust.teardownQueues h i n).gives
  | teardownCurrent i n => exact (robust.teardownCurrent h i n).gives
  | teardownEnd i main n => exact (robust.teardownEnd h i main n).gives
  | switch i target p => exact h.switch hs i target p
  | deliver p => exact h.deliver hs p
  | suspend i f => exact h.suspend hf i f
  | resumed i => exact h.resumed hs i
  | refuse x => exact h.refuse hs x
  | answer outcome => exact absurd rfl (ht outcome)
  | drive i target p => exact h.drive hs i target p
  | driveTarget i target p => exact h.driveTarget hs i target p
  | driveKilled i target p => exact ((tolerant.nextLive h i target).retarget _ _ _ _).gives
  | driveRefused i target x =>
    exact ((tolerant.modifyObject (tolerant.write h _ _) _ _).retarget _ _ _ _).gives
  | driveRegister i target f => exact h.driveRegister hs i target f
  | driveResume i target f => exact (h.driveResume i target f).gives
  | driveBack i target f => exact (h.driveBack i target f).gives
  | driveFinished i target out => exact (h.driveFinished i target out).gives
  | driveSuspended i target out => exact (h.driveSuspended i target out).gives
  | driveMain => exact (h.silent rfl).gives
  | endDriving i => exact (tolerant.modifyHub h i _).gives
  | runBody run args => exact (h.runBody run args).gives
  | bodyEnd run => exact (h.silent (Task.all_isSilent_of_neutral (Task.all_isNeutral_dropRun run))).gives
  | switched => exact (h.silent rfl).gives
  | entry | mainGuard | nestEnd | rootEnd => exact h.gives
  | result p => exact (h.signal fun t _ hv => hv.result p t).gives
  | steps rest => exact h.runSteps hs rest
  | mainSteps rest =>
    cases rest with
    | nil => exact h.gives
    | cons st rest => exact (h.silent rfl).gives
  | loop n steps =>
    cases n with
    | zero => exact h.gives
    | succ n => exact (h.silent rfl).gives
  | frame f => exact (h.endFrame f .through).gives
  | leave flow => exact (h.signal fun t _ hv => hv.leave flow t).gives
  | hand last flow => exact (h.signal fun t _ hv => hv.hand last flow t).gives
  | dropEnd => exact (h.level (.event _ _)).gives
  | note name result => exact (tolerant.note h name result).gives
  | build acc positional keywords purpose => exact h.build hs acc positional keywords purpose
  | sortFrom n =>
    have h₁ : Tacit e w₀ (w.sortFrom n) := h.level (.of_eq rfl rfl rfl)
    exact h₁.gives
  | join => exact (tolerant.note h _ _).gives
  | endHandles => exact (tolerant.neutral h (by simp [Task.isNeutral])).gives
  | endHandle name => exact (tolerant.endHandle h name).gives
  | endObjects => exact (tolerant.endObjects h).gives
  | endOuts => exact (tolerant.endOuts h).gives
  | endStats => exact (tolerant.endStats h).gives
  | endHubs => exact (tolerant.endHubs h).gives
  | exitThread => exact (tolerant.exitThread h).gives
  | exitSlots => exact (tolerant.exitSlots h).gives
  | rally r => exact h.rallyRun hs r
  | fail p => exact (h.fault p).gives

end Tacit

variable {e : SwitchError} {w : World}

private theorem gives_answer (hw : w.Seated) {outcome : Except SwitchError (Args Obj)}
    {below : List (Item Task)} (ht : w.thread.stack = .task (.answer outcome) :: below) :
    Gives e w ((w.setStack below).signal (World.answer outcome)) := by
  have h₁ := (Tacit.refl (e := e) hw).tail ht
  have hs₁ : SameSlot w (w.setStack below) := .modifyThread hw fun _ => rfl
  unfold World.signal
  split
  · rename_i t rest ht'
    have he : below = .task t :: rest := by rwa [stack_setStack hw] at ht'
    have h₂ := h₁.tail ht'
    have hs₂ := hs₁.trans (.modifyThread (f := fun t => { t with stack := rest }) h₁.seated
      fun _ => rfl)
    unfold World.answer
    split
    · exact (h₂.switched _ _ _ _).gives
    · exact h₂.rallyAnswered hs₂ _ outcome
    · have hn : ((w.setStack below).setStack rest).pass t (.answer outcome) =
          w.setStack ((t.cleanup ++ [Task.answer outcome]).map .task ++ rest) := by
        unfold World.pass
        rw [push_eq_setStack h₂.seated, stack_setStack h₁.seated]
        unfold World.setStack
        rw [modifyThread_modifyThread, modifyThread_modifyThread]
        rfl
      rw [hn]
      refine ((Tacit.refl hw).setStack ?_).gives
      rw [ht, he, List.map_append, Item.refusals_append, Item.refusals_append,
        Item.refusals_silent (Task.all_isSilent_of_neutral (Task.all_isNeutral_cleanup t))]
      simp only [List.map_cons, List.map_nil, Item.refusals_task, Item.refusals_nil,
        List.count_append, List.nil_append, List.append_nil]
      omega
  · exact h₁.gives

/-- The law of errors on their way: a step adds one only if it registered it, or if it takes up a
stack that was set aside with it. -/
theorem gives_next (e : SwitchError) (hw : w.Manned) (hr : w.isHalted = false) :
    Gives e w w.next := by
  have h : Tacit e w w := .refl hw.seated
  unfold World.next
  split
  · rename_i ht
    have ha : 1 < w.active := by
      unfold isHalted at hr
      simpa [ht] using hr
    obtain ⟨h₁, h₂⟩ := hw.parents _ _ hw.seated.getElem? (by unfold ThreadId at *; omega)
    have hm : Tacit e w { w with active := w.thread.parent } :=
      ⟨⟨h₁, h₂⟩, h.spends, fun _ => .inl (Nat.le_refl _)⟩
    exact hm.gives
  · rename_i f forced below ht
    exact ((h.tail ht).setControl (.land f forced)).gives
  · rename_i t below ht
    by_cases ha : ∃ outcome, t = .answer outcome
    · obtain ⟨outcome, rfl⟩ := ha
      exact gives_answer hw.seated ht
    · exact (h.tail ht).runTask (.modifyThread hw.seated fun _ => rfl) rfl
        fun outcome he => ha ⟨_, he⟩

end World

end Switchyard
