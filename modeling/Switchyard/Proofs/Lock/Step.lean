import Switchyard.Proofs.Lock.Driver

/-!
# One step and the lock

A step takes the lock when it begins to destroy an object and gives it back when the destruction
ends. All other steps leave the lock alone.
-/

namespace Switchyard

open World

variable {w w' : World} {home : FiberId → ThreadId}

private theorem Tame.runSteps (hw : w.Manned) (rest : List Script.Step) :
    Tame w (w.runSteps rest) := by
  by_cases hs : (Task.steps rest).isScript = true
  · exact (Effect.runSteps hw.seated hs (Licence.grants_full _ _)).tame hw.seated
  · cases rest with
    | nil => exact absurd rfl hs
    | cons st rest =>
      unfold World.runSteps
      simp only
      split
      · exact .push hw.seated rfl
      · rename_i fuel _
        have h₀ : Tame w { w with fuel } :=
          .of_quiet ⟨rfl, rfl, rfl, rfl, rfl, rfl, rfl, rfl, rfl, rfl, rfl⟩
        have h₁ : Tame w ({ w with fuel }.push [.steps rest]) := h₀.pushing hw rfl
        have hm := h₁.manned hw
        cases st with
        | registerSwitch => exact h₁.trans (.registerSwitchStep hm ..)
        | defer => exact h₁.trans (.deferStep hm ..)
        | teardown => exact h₁.trans (.teardownStep hm _)
        | newHub => exact h₁.trans (.newHubStep hm _)
        | dropHub => exact h₁.trans (.dropHubStep hm _)
        | _ => exact absurd rfl hs

namespace Locked

theorem yield (h : Locked home 0 w) {i : ThreadId} (hi : 0 < i) (hs : i ≤ w.threads.size) :
    Locked home 0 { w with active := i } :=
  ⟨⟨⟨hi, hs⟩, h.manned.parents⟩, h.depth, h.free, fun h => absurd h (Nat.lt_irrefl 0), h.stackAt,
    h.saved, h.pins, h.once, h.running⟩

private theorem steady (h : Locked home 0 w) (ht : Tame w w') : ∃ home', Locked home' 0 w' :=
  ⟨home, h.after ht⟩

/-- A task has been taken off the stack and runs; the fibers that it uses are those of its
thread. -/
private theorem runTask {t : Task} (h : Locked home (if t.isUnlock = true then 1 else 0) w)
    (hf : ∀ f ∈ t.fibers, f < w.fibers.size ∧ home f = w.active)
    (hp : ∀ p ∈ t.pins, p.value < w.fibers.size ∧ home p.value = p.owner)
    (hl : ∀ r, t = .destroy r → w.canLock = true) : ∃ home', Locked home' 0 (w.runTask t) := by
  have hm := h.manned
  cases t with
  | drop r => exact ⟨home, Locked.drop h r⟩
  | dropPinned p => exact ⟨home, Locked.dropPinned h (hp p (by simp [Task.pins]))⟩
  | destroy r => exact ⟨home, Locked.destroy h (hl r rfl) r⟩
  | reclaim r => exact ⟨home, Locked.reclaim h r⟩
  | unlock => exact ⟨home, Locked.unlock h⟩
  | unshare f =>
    obtain ⟨h₁, h₂⟩ := hf f (by simp [Task.fibers])
    exact ⟨home, Locked.unshare h h₁ h₂⟩
  | settle f => exact ⟨home, Locked.settle h f⟩
  | leaveHub i => exact Locked.steady h (.leaveHub hm i)
  | dropHubFields i => exact Locked.steady h (.dropHubFields hm i)
  | release i r => exact ⟨home, Locked.release h i r⟩
  | released i r => exact Locked.steady h (.released hm i r)
  | drain i => exact Locked.steady h (.drain hm i)
  | teardown i => exact ⟨home, Locked.teardown h i⟩
  | teardownQueues i n => exact Locked.steady h (.teardownQueues hm i n)
  | teardownCurrent i n => exact Locked.steady h (.teardownCurrent hm i n)
  | teardownEnd i r n => exact Locked.steady h (.teardownEnd hm i r n)
  | switch i r p => exact ⟨home, Locked.switch h i r p⟩
  | suspend i f => exact ⟨home, Locked.suspend h i f⟩
  | resumed i => exact Locked.steady h (.resumed hm i)
  | answer outcome => exact Locked.steady h (.answer hm outcome)
  | drive i r p => exact Locked.steady h (.drive hm i r p)
  | driveTarget i r p => exact Locked.driveTarget h i r p
  | driveKilled i r p => exact Locked.steady h (.driveKilled hm i r p)
  | driveRefused i r e => exact Locked.steady h (.driveRefused hm i r e)
  | driveRegister i r f =>
    obtain ⟨h₁, h₂⟩ := hf f (by simp [Task.fibers])
    exact ⟨home, Locked.driveRegister h i r h₁ h₂⟩
  | driveResume i r f =>
    obtain ⟨h₁, h₂⟩ := hf f (by simp [Task.fibers])
    exact ⟨home, Locked.driveResume h i r h₁ h₂⟩
  | driveBack i r f =>
    obtain ⟨h₁, h₂⟩ := hf f (by simp [Task.fibers])
    exact ⟨home, Locked.driveBack h i r h₁ h₂⟩
  | driveFinished i r out => exact Locked.steady h (.driveFinished hm i r out)
  | driveSuspended i r out => exact Locked.steady h (.driveSuspended hm i r out)
  | driveMain i r p => exact Locked.steady h (.driveMain hm i r p)
  | endDriving i => exact Locked.steady h (.modifyHub _ _)
  | result p => exact Locked.steady h (.result hm p)
  | entry i f => exact ⟨home, h⟩
  | steps rest => exact Locked.steady h (.runSteps hm rest)
  | leave flow => exact Locked.steady h (.leave hm flow)
  | hand last flow => exact Locked.steady h (.hand hm last flow)
  | endHubs => exact Locked.steady h (.endHubs hm)
  | exitThread => exact Locked.steady h (.exitThread hm)
  | exitSlots => exact Locked.steady h (.exitSlots hm)
  | fail p => exact ⟨home, Locked.fault h p⟩
  | _ => exact Locked.steady h ((Effect.runTask hm.seated rfl (Licence.grants_full _ _)).tame hm.seated)

theorem next (h : Locked home 0 w) (hr : w.isHalted = false) :
    ∃ home', Locked home' 0 w.next := by
  unfold isHalted at hr
  unfold World.next
  split
  · rename_i hs
    rw [hs] at hr
    have ha : 1 < w.active := by simpa using hr
    obtain ⟨h₁, h₂⟩ := h.manned.parents _ _ h.manned.seated.getElem? (by
      unfold ThreadId at *
      omega)
    exact ⟨home, h.yield h₁ h₂⟩
  · rename_i hs
    exact ⟨home, h.land hs⟩
  · rename_i t below hs
    have hf := h.stack
    rw [hs] at hf hr
    have hpop := h.pop hs
    rw [Nat.zero_add] at hpop
    refine hpop.runTask (fun f hm => hf.fibers f (by simp [hm]))
      (fun p hm => hf.pins p (by simp [hm])) ?_
    rintro r rfl
    have hl : w.canLock = true := by simpa using hr
    exact hl

end Locked

private theorem lock_takeControl (r : Control Task × Bool) : (w.takeControl r).lock = w.lock := by
  unfold takeControl
  simp only
  split <;> rfl

private theorem lock_unshare (f : FiberId) : (w.unshare f).lock = w.lock := lock_takeControl _

private theorem lock_dropPinned (p : Pinned FiberId) : (w.dropPinned p).lock = w.lock := by
  unfold World.dropPinned
  split
  · exact lock_unshare _
  · rfl

private theorem lock_unwind (f : FiberId) : (w.unwind f).lock = w.lock := by
  unfold World.unwind
  simp only
  split
  · rfl
  · exact lock_takeControl _

private theorem lock_abandonStack (r : Ref) : (w.abandonStack r).2.lock = w.lock := by
  unfold World.abandonStack
  simp only
  split
  · rfl
  · split <;> rfl

private theorem lock_releaseHook (r : Ref) : (w.releaseHook r).lock = w.lock := by
  unfold World.releaseHook
  simp only
  split
  · split <;> rfl
  · split
    · exact lock_abandonStack (w := w.debug _) r
    · split
      · exact lock_abandonStack (w := (w.debug _).forget _ r) r
      · split
        · rfl
        · split <;> rfl

private theorem lock_event (name : String) (result : List Datum) :
    (w.event name result).lock = w.lock := (Quiet.event name result).lock

private theorem lock_drop (r : Ref) : (w.drop r).lock = w.lock := by
  unfold World.drop
  split
  · rfl
  · simp only
    split
    · unfold World.lastDropped
      split
      · split
        · rfl
        · exact lock_releaseHook (w := w.modifyObject r _) r
      · simp only [World.push, World.modifyThread, World.bindObject, lock_event]
        rfl
      · rfl
    · rfl

private theorem lock_release (i : HubId) (r : Ref) : (w.release i r).lock = w.lock := by
  unfold World.release
  simp only
  split
  · rfl
  · split
    · rfl
    · exact lock_unwind _

private theorem lock_teardown (i : HubId) : (w.teardown i).lock = w.lock := by
  unfold World.teardown
  simp only
  split
  · rfl
  · have hf (rs : List Ref) : ∀ (x : Nat × List Task × World),
        (rs.foldl World.shutNext x).2.2.lock = x.2.2.lock := by
      induction rs with
      | nil => exact fun _ => rfl
      | cons r rs ih =>
        intro x
        rw [List.foldl_cons, ih]
        exact lock_abandonStack r
    exact hf (w.hub i).nodes (0, [], _)

private theorem lock_switch (i : HubId) (r : Ref) (p : Payload) (hw : w.Manned) :
    (w.switch i r p).lock = w.lock := by
  unfold World.switch
  split
  · exact (Tame.raise hw _).lock
  · simp only
    split
    · exact (Tame.deliver (w := w.trace _) hw.seated p).lock
    · split
      · unfold World.switchFromFiber
        simp only
        split
        · exact (Tame.raise (w := w.retain r) (hw.of_eq rfl rfl) _).lock
        · rfl
      · rfl

private theorem lock_suspend (i : HubId) (f : FiberId) : (w.suspend i f).lock = w.lock := by
  unfold World.suspend
  split
  · split <;> rfl
  · rfl

private theorem lock_driveTarget (hw : w.Manned) (i : HubId) (r : Ref) (p : Payload) :
    (w.driveTarget i r p).lock = w.lock := by
  unfold World.driveTarget
  simp only
  split
  · split
    · rename_i hr
      exact (Tame.registerSwitch hw hr).lock
    · rename_i hr
      exact (Tame.registerSwitch hw hr).lock
  · split
    · rfl
    · split <;> rfl

private theorem lock_driveRegister (hw : w.Manned) (i : HubId) (r : Ref) (f : FiberId) :
    (w.driveRegister i r f).lock = w.lock := by
  unfold World.driveRegister
  split
  · rename_i hr
    exact (Tame.registerSwitch hw hr).lock
  · rename_i hr
    exact (Tame.registerSwitch hw hr).lock

private theorem lock_driveResume (i : HubId) (r : Ref) (f : FiberId) :
    (w.driveResume i r f).lock = w.lock := by
  unfold World.driveResume
  simp only
  split <;> rfl

private theorem lock_driveBack (i : HubId) (r : Ref) (f : FiberId) :
    (w.driveBack i r f).lock = w.lock := by
  unfold World.driveBack
  simp only
  split <;> rfl

private theorem lock_fault (hw : w.Manned) (p : Panic) : (w.fault p).lock = w.lock := by
  unfold World.fault
  split
  · rfl
  · rename_i hs
    exact (Tame.failTask hw p hs).lock
  · unfold failBase
    simp only
    split <;> rfl

theorem lock_destroy (r : Ref) :
    (w.destroy r).lock = (w.lock.ensure? w.active).getD w.lock := by
  unfold World.destroy
  simp only
  split
  · rfl
  · simp only [World.push, World.modifyThread, lock_event]
  · rfl
  · rfl

theorem lock_runTask (hw : w.Manned) {t : Task} (hu : t.isUnlock = false)
    (hd : ∀ r, t ≠ .destroy r) : (w.runTask t).lock = w.lock := by
  cases t with
  | drop r => exact lock_drop r
  | dropPinned p => exact lock_dropPinned p
  | destroy r => exact absurd rfl (hd r)
  | reclaim | unlock => cases hu
  | unshare f => exact lock_unshare f
  | settle f => rfl
  | leaveHub i => exact (Tame.leaveHub hw i).lock
  | dropHubFields i => rfl
  | release i r => exact lock_release i r
  | released i r => rfl
  | drain i => exact (Tame.drain hw i).lock
  | teardown i => exact lock_teardown i
  | teardownQueues | teardownCurrent | teardownEnd => rfl
  | switch i r p => exact lock_switch i r p hw
  | suspend i f => exact lock_suspend i f
  | resumed i => exact (Tame.resumed hw i).lock
  | answer outcome => exact (Tame.answer hw outcome).lock
  | drive i r p => exact (Tame.drive hw i r p).lock
  | driveTarget i r p => exact lock_driveTarget hw i r p
  | driveKilled i r p => exact (Tame.driveKilled hw i r p).lock
  | driveRefused => rfl
  | driveRegister i r f => exact lock_driveRegister hw i r f
  | driveResume i r f => exact lock_driveResume i r f
  | driveBack i r f => exact lock_driveBack i r f
  | driveFinished i r out => exact (Tame.driveFinished hw i r out).lock
  | driveSuspended i r out => exact (Tame.driveSuspended hw i r out).lock
  | driveMain | endDriving | entry => rfl
  | result p => exact (Tame.result hw p).lock
  | steps rest => exact (Tame.runSteps hw rest).lock
  | leave flow => exact (Tame.leave hw flow).lock
  | hand last flow => exact (Tame.hand hw last flow).lock
  | endHubs => exact (Tame.endHubs hw).lock
  | exitThread => exact (Tame.exitThread hw).lock
  | exitSlots => exact (Tame.exitSlots hw).lock
  | fail p => exact lock_fault hw p
  | _ => exact ((Effect.runTask hw.seated rfl (Licence.grants_full _ _)).tame hw.seated).lock

end Switchyard
