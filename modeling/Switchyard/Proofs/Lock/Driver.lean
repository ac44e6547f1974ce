import Switchyard.Proofs.Lock.Tasks

/-!
# The driver and the lock

The driver makes fibers, enters them and takes control back.
-/

namespace Switchyard

open World

namespace Locked

variable {w w' : World} {home : FiberId → ThreadId}

private theorem pin {n : Nat} (h : Locked home n w) (r : Ref) {u : Greenlet → Greenlet}
    (hu : ∀ g p, (u g).fiber = some p → p.value < w.fibers.size ∧ home p.value = p.owner) :
    Locked home n (w.modifyGreenlet r u) := by
  refine ⟨h.manned.of_eq rfl rfl, h.depth, h.free, h.pending, h.stackAt, h.saved, fun q p hp => ?_,
    h.once, h.running⟩
  rw [greenlet_eq, greenlet?_modifyGreenlet] at hp
  split at hp
  · cases hg : w.greenlet? q with
    | none => simp [hg, Greenlet.absent] at hp
    | some g => exact hu g p (by simpa [hg] using hp)
  · rw [← greenlet_eq] at hp
    exact h.pins q p hp

private theorem share (h : Locked home 0 w) (f : FiberId) :
    Locked home 0 (w.setControl (w.control.share f)) :=
  h.setControl_self ⟨h.good.adjust fun _ => rfl, Control.unfinished_adjust _ f fun _ => rfl,
    Control.size_modify f _⟩

private theorem create (h : Locked home 0 w) (i : HubId) (run : RunFn) (args : Args Obj) :
    Locked (fun g => if g = w.fibers.size then w.active else home g) 0
      (w.setControl ((w.control.create [.runBody run args, .entry i w.fibers.size]
        (Task.dropRun run ++ Task.dropArgs args)).2.share w.fibers.size)) := by
  have hh : ∀ f < w.fibers.size,
      (if f = w.fibers.size then w.active else home f) = home f :=
    fun f hf => if_neg (Nat.ne_of_lt hf)
  obtain ⟨m₁, f₁, p₁⟩ := Item.light_map (Task.all_isLight_dropRun run)
  obtain ⟨m₂, f₂, p₂⟩ := Item.light_map (Task.all_isLight_dropArgs args)
  have hb : w.baseCount w.fibers.size = 0 := by
    by_contra hc
    have := h.running _ (Nat.pos_of_ne_zero hc)
    simp [fiberD_eq, Fiber.isActive] at this
  have hg := h.good.create hh (e := [.runBody run args, .entry i w.fibers.size])
    (d := Task.dropRun run ++ Task.dropArgs args)
    ⟨fun f hf => ?_, fun p hp => ?_, fun hm => ?_⟩ ?_ ?_
  · have hu := Control.unfinished_adjust
      (w.control.create [.runBody run args, .entry i w.fibers.size]
        (Task.dropRun run ++ Task.dropArgs args)).2 w.fibers.size
      (u := fun s => { s with handles := s.handles + 1 }) fun _ => rfl
    refine h.setControl (hg.1.adjust (f := w.fibers.size)
      (u := fun s => { s with handles := s.handles + 1 }) fun _ => rfl) (hu.trans hg.2) ?_ hh
    simp [Control.share, Control.create, World.control]
  · obtain rfl : f = w.fibers.size := by simpa [f₁, f₂, Task.fibers] using hf
    exact ⟨Nat.lt_succ_self _, rfl⟩
  · simp [p₁, p₂, Task.pins] at hp
  · simp [m₁, m₂, Task.isUnlock] at hm
  · simp [m₁, m₂, Task.isUnlock]
  · exact (h.others_control _).trans hb

theorem driveTarget (h : Locked home 0 w) (i : HubId) (target : Ref) (p : Payload) :
    ∃ home', Locked home' 0 (w.driveTarget i target p) := by
  unfold World.driveTarget
  simp only
  split
  · refine ⟨home, ?_⟩
    split
    · rename_i hr
      exact (h.after (.registerSwitch h.manned hr)).pushLight rfl
    · rename_i hr
      refine (h.after (.registerSwitch h.manned hr)).pushLight ?_
      rw [List.all_append, List.all_append, Task.all_isLight_dropPayload]
      rfl
  · split
    · have h₁ := (h.after (.write .debug ("greenlet " ++ (w.greenlet target).id.text ++
        ": killed before start"))).after
        (.modifyGreenlet target (f := fun g => { g with state := .dead, run := none })
          fun _ h => h)
      refine ⟨home, h₁.pushLight ?_⟩
      rw [List.all_append, Task.all_isLight_getD_dropRun]
      rfl
    · split
      · rename_i p _ _ _ f hg _
        obtain ⟨q, hq, hg⟩ := Option.bind_eq_some_iff.mp hg
        obtain ⟨ho, rfl⟩ := Pinned.get?_eq_some_iff.mp hg
        obtain ⟨hf, hi⟩ := h.pins _ q hq
        refine ⟨home, ?_⟩
        have h₁ := (h.share q.value).after
          (.modifyGreenlet target (f := fun g => { g with inbox := some p }) fun _ h => h)
        have hs : q.value < (w.control.share q.value).fibers.size := by
          rwa [Control.share, Control.size_modify]
        rw [push_append]
        exact (h₁.pushFiber (t := .driveRegister i target q.value) (l := []) hs (hi.trans ho)
          rfl rfl rfl rfl).pushLight (Task.all_isLight_getD_dropPayload _)
      · rename_i run args _ _ _
        refine ⟨fun g => if g = w.fibers.size then w.active else home g, ?_⟩
        have hs : w.fibers.size < (w.setControl ((w.control.create
            [.runBody run args, .entry i w.fibers.size]
            (Task.dropRun run ++ Task.dropArgs args)).2.share w.fibers.size)).fibers.size := by
          simp [World.setControl, Control.share, Control.create, World.control]
        refine ((((h.create i run args).pin target fun g p hp => ?_).after
          (.modifyHub _ _))).pushFiber (f := w.fibers.size) hs (if_pos rfl) rfl rfl rfl rfl
        obtain rfl := Option.some.inj hp
        exact ⟨hs, if_pos rfl⟩
      · have h₁ := h.after (.modifyGreenlet target (f := fun g => { g with run := none })
          fun _ h => h)
        refine ⟨home, h₁.pushLight ?_⟩
        rw [List.all_append, List.all_append, Task.all_isLight_getD_dropRun,
          Task.all_isLight_dropPayload]
        rfl

private theorem active_raise (e : SwitchError) : (w.raise e).active = w.active := by
  have ht : w.touchPending.active = w.active := (Quiet.touchPending).active
  unfold World.raise World.registerFailure
  simp only
  split
  · exact ht
  · exact ht

private theorem registerSwitch_active {i : HubId} {target : Ref} {o : Except SwitchError Ref}
    (hr : w.registerSwitch i target = (o, w')) : w'.active = w.active := by
  unfold World.registerSwitch at hr
  simp only at hr
  split at hr
  · obtain ⟨-, rfl⟩ := Prod.mk.inj hr
    exact active_raise _
  · obtain ⟨-, rfl⟩ := Prod.mk.inj hr
    split <;> rfl

theorem driveRegister (h : Locked home 0 w) (i : HubId) (target : Ref) {f : FiberId}
    (hf : f < w.fibers.size) (hi : home f = w.active) :
    Locked home 0 (w.driveRegister i target f) := by
  unfold World.driveRegister
  split
  · rename_i prev w₁ hr
    have ht := Tame.registerSwitch h.manned hr
    have ha := registerSwitch_active hr
    rw [show [Task.drop prev, .driveResume i target f] = [Task.drop prev] ++
      [.driveResume i target f] from rfl, push_append]
    exact ((h.after ht).pushFiber (t := .driveResume i target f) (ht.fibers ▸ hf)
      (hi.trans ha.symm) rfl rfl rfl rfl).pushLight rfl
  · rename_i e w₁ hr
    have ht := Tame.registerSwitch h.manned hr
    exact (h.after ht).pushFiber (ht.fibers ▸ hf)
      (hi.trans (registerSwitch_active hr).symm) rfl rfl rfl rfl

theorem driveResume (h : Locked home 0 w) (i : HubId) (target : Ref) {f : FiberId}
    (hf : f < w.fibers.size) (hi : home f = w.active) :
    Locked home 0 (w.driveResume i target f) := by
  unfold World.driveResume
  have h₁ := (h.after (.modifyHub i fun s => { s with runningFiber := true })).pushFiber
    (t := .driveBack i target f) (l := []) hf hi rfl rfl rfl rfl
  simp only
  split
  · rename_i c hc
    exact h₁.setControl_self (h₁.good.resume hf hi hc)
  · exact h₁.fail _

theorem driveBack (h : Locked home 0 w) (i : HubId) (target : Ref) {f : FiberId}
    (hf : f < w.fibers.size) (hi : home f = w.active) :
    Locked home 0 (w.driveBack i target f) := by
  have h₁ := h.after (.modifyHub i fun s => { s with runningFiber := false, outgoing := none })
  unfold World.driveBack
  simp only
  split
  · have h₂ := (h₁.after (.unpin target
      (f := fun g => { g with state := .dead, fiber := none }) fun _ => rfl)).after
      (.modifyHub i fun s => { s with stats := { s.stats with finished := s.stats.finished + 1 } })
    have h₃ := h₂.pushFiber (t := .unshare f) (l := [.driveFinished i target (w.hub i).outgoing])
      hf hi rfl rfl rfl rfl
    have hd (o : Option (Pinned FiberId)) (ho : (w.greenlet target).fiber = o) :=
      h₃.push (l := (o.map Task.dropPinned).toList)
        (by cases o <;> simp [Task.fibers])
        (fun p hp => h.pins target p (by
          cases o <;> simp_all [Task.pins]))
        (by cases o <;> rfl)
    rw [push_append]
    exact hd _ rfl
  · exact h₁.pushFiber hf hi rfl rfl rfl rfl

theorem land (h : Locked home 0 w) {f : FiberId} {forced : Bool} {below : List (Item Task)}
    (hs : w.thread.stack = .base f forced :: below) :
    Locked home 0 ((w.setStack below).setControl ((w.setStack below).control.land f forced)) := by
  have hc : (w.setStack below).control = { w.control with stack := below } := by
    simp only [World.control, World.setStack, thread_modifyThread h.manned.seated]
    rfl
  have he (c : Control Task) : (w.setStack below).setControl c = w.setControl c := by
    simp only [World.setControl, World.setStack, World.modifyThread, World.mk.injEq, and_true,
      true_and]
    apply Array.ext_getElem?
    intro i
    simp only [Array.getElem?_modify]
    split
    · cases w.threads[i]? <;> simp
    · rfl
  rw [hc, he]
  exact h.setControl_self (h.good.land hs)

theorem fault (h : Locked home 0 w) (p : Panic) : Locked home 0 (w.fault p) := by
  unfold World.fault
  split
  · exact h
  · rename_i hs
    exact h.after (.failTask h.manned p hs)
  · rename_i f forced below hs
    have h₁ := h.land hs
    unfold failBase
    simp only
    split
    · exact h₁.after .calm
    · exact h₁.pushLight rfl

end Locked

end Switchyard
