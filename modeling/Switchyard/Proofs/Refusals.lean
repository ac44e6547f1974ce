import Switchyard.Proofs.Lock.Transfer

/-!
# Refused operations

The engine checks whether it may do what it is asked for before it changes anything. A refusal
registers its error as the pending failure of the thread, unless there is one already, and leaves
all else alone: the hubs with their flags, queues, counters and nodes, the numbers, the greenlets
and the stacks.
-/

namespace Switchyard

/-- A thread without its pending failure and without the order of its slots. -/
def Thread.bare (t : Thread) : Thread := { t with pending := .vacant, touched := [] }

namespace World

variable {w w' w'' w₀ : World} {tr : List World}

/-- In `w'` nothing has moved but the slot of the active thread's pending failure. There may be
new objects, but no new greenlets, and new lines of the log. -/
structure Unaltered (w w' : World) : Prop where
  /-- The hubs, the numbers, the fibers, the tables and the lock are among the rest. -/
  rest : { w' with heap := w.heap, threads := w.threads, log := w.log } = w
  greenlets : w'.greenlet? = w.greenlet?
  size : w.heap.size ≤ w'.heap.size
  objects : ∀ r < w.heap.size, w'.object? r = w.object? r
  bare : w'.threads.map Thread.bare = w.threads.map Thread.bare
  others : ∀ i, i ≠ w.active - 1 → w'.threads[i]? = w.threads[i]?

/-- The slot of the active thread keeps the first failure: `f` goes into a vacant slot only. -/
structure Registers (f : Failure) (w w' : World) : Prop where
  vacant : w.thread.pending = .vacant →
    ∃ r, w'.thread.pending = .full r ∧ w'.object? r = some ⟨1, .failure f⟩
  kept : w.thread.pending ≠ .vacant → w'.thread.pending = w.thread.pending ∧ w'.heap = w.heap

/-- An operation was refused with the error `e`. -/
structure Refused (e : SwitchError) (w w' : World) : Prop where
  unaltered : Unaltered w w'
  registers : Registers (.ofError e) w w'

/-- The slot of the active thread was emptied; `old` is what was in it. -/
structure Cleared (old : Option Ref) (w w' : World) : Prop where
  unaltered : Unaltered w w'
  heap : w'.heap = w.heap
  found : old = w.thread.pending.get?
  empty : w'.thread.pending.get? = none

namespace Unaltered

theorem refl (w : World) : Unaltered w w :=
  ⟨rfl, rfl, Nat.le_refl _, fun _ _ => rfl, rfl, fun _ _ => rfl⟩

theorem active (h : Unaltered w w') : w'.active = w.active := by
  have ha := congrArg World.active h.rest
  exact ha

theorem trans (h : Unaltered w w') (h' : Unaltered w' w'') : Unaltered w w'' where
  rest := by
    have h₁ := h.rest
    rw [← h'.rest] at h₁
    exact h₁
  greenlets := h'.greenlets.trans h.greenlets
  size := Nat.le_trans h.size h'.size
  objects r hr := (h'.objects r (Nat.lt_of_lt_of_le hr h.size)).trans (h.objects r hr)
  bare := h'.bare.trans h.bare
  others i hi := by
    rw [h'.others i (h.active ▸ hi), h.others i hi]

theorem modifyThread {f : Thread → Thread} (hf : ∀ t, (f t).bare = t.bare) :
    Unaltered w (w.modifyThread f) where
  rest := rfl
  greenlets := rfl
  size := Nat.le_refl _
  objects _ _ := rfl
  bare := by
    apply Array.ext_getElem?
    intro i
    simp only [World.modifyThread, Array.getElem?_map, Array.getElem?_modify]
    split
    · cases w.threads[i]? with
      | none => rfl
      | some t => exact congrArg some (hf t)
    · rfl
  others i hi := by
    simp [World.modifyThread, Array.getElem?_modify, Ne.symm hi]

theorem touchPending (w : World) : Unaltered w w.touchPending := by
  unfold World.touchPending World.touch
  split
  · exact refl w
  · split
    · exact refl w
    · exact modifyThread fun _ => rfl

theorem alloc {v : Value} (hv : v.greenlet? = none) : Unaltered w (w.alloc v).2 where
  rest := rfl
  greenlets := by
    funext r
    simp only [World.greenlet?, object?_alloc]
    split
    · subst_vars
      simp [hv, object?_size]
    · rfl
  size := by simp [World.alloc]
  objects r hr := by
    rw [object?_alloc, if_neg (Nat.ne_of_lt hr)]
  bare := rfl
  others _ _ := rfl

theorem write (level : LogLevel) (message : String) : Unaltered w (w.write level message) :=
  ⟨rfl, rfl, Nat.le_refl _, fun _ _ => rfl, rfl, fun _ _ => rfl⟩

theorem seated (h : Unaltered w w') (hw : w.Seated) : w'.Seated := by
  have hs : w'.threads.size = w.threads.size := by simpa using congrArg Array.size h.bare
  rwa [Seated, h.active, hs]

end Unaltered

theorem seated_touchPending (hw : w.Seated) : w.touchPending.Seated :=
  (Unaltered.touchPending w).seated hw

theorem pending_touchPending (hw : w.Seated) :
    w.touchPending.thread.pending = w.thread.pending :=
  (Quiet.touchPending.thread hw).2.1

theorem registerFailure_registers (hw : w.Seated) (f : Failure) :
    Unaltered w (w.registerFailure f) ∧ Registers f w (w.registerFailure f) := by
  have ht := Unaltered.touchPending w
  have hp := pending_touchPending hw
  unfold registerFailure
  simp only
  split
  · rename_i hv
    have ha : Unaltered w (w.touchPending.alloc (.failure f)).2 := ht.trans (.alloc rfl)
    refine ⟨ha.trans (.modifyThread fun _ => rfl), fun _ => ?_, fun hn => ?_⟩
    · refine ⟨(w.touchPending.alloc (.failure f)).1, ?_, ?_⟩
      · rw [thread_modifyThread (ha.seated hw)]
      · exact (object?_alloc _ _).trans (if_pos rfl)
    · exact absurd (hp.symm.trans hv) hn
  · rename_i hv
    refine ⟨ht, fun hn => absurd (hp.trans hn) (fun h => hv h), fun _ => ⟨hp, ?_⟩⟩
    exact Quiet.touchPending.heap

theorem raise_refused (hw : w.Seated) (e : SwitchError) : Refused e w (w.raise e) :=
  let ⟨hu, hr⟩ := registerFailure_registers hw (.ofError e)
  ⟨hu, hr⟩

theorem takePending_cleared (hw : w.Seated) : Cleared w.takePending.1 w w.takePending.2 := by
  have ht := Unaltered.touchPending w
  have hp := pending_touchPending hw
  have hh : w.touchPending.heap = w.heap := Quiet.touchPending.heap
  unfold takePending
  simp only
  split
  · rename_i r hf
    refine ⟨ht.trans (.modifyThread fun _ => rfl), hh, ?_, ?_⟩
    · rw [← hp, hf]
      rfl
    · rw [thread_modifyThread (seated_touchPending hw)]
      rfl
  · rename_i hf
    have hn : w.touchPending.thread.pending.get? = none := by
      cases hq : w.touchPending.thread.pending with
      | full r => exact absurd hq (hf r)
      | _ => rfl
    exact ⟨ht, hh, by rw [← hp, hn], hn⟩

/-- The first reason that applies. -/
def firstReason (reasons : List (Bool × SwitchError)) : Option SwitchError :=
  (reasons.find? Prod.fst).map Prod.snd

/-- Why hub `h` does not switch to `target`, the reason that counts first. -/
def switchReasons (w : World) (h : HubId) (target : Ref) : List (Bool × SwitchError) :=
  [((w.hub h).closed, .threadExited),
    ((w.hub h).isBusy, .switchDuringRelease),
    ((w.greenlet target).thread != (w.hub h).thread, .crossThreadSwitch (w.greenlet target).id),
    ((w.greenlet target).state.isDead, .deadTarget (w.greenlet target).id)]

/-- Why hub `h` makes no greenlet under `parent?`. -/
def createReasons (w : World) (h : HubId) (parent? : Option Ref) : List (Bool × SwitchError) :=
  let p := w.greenlet (parent?.getD (w.hub h).current)
  [((w.hub h).closed, .threadExited),
    (parent?.isSome && p.thread != (w.hub h).thread, .crossThreadParent p.id)]

theorem firstReason_cons (b : Bool) (e : SwitchError) (rs : List (Bool × SwitchError)) :
    firstReason ((b, e) :: rs) = if b then some e else firstReason rs := by
  cases b <;> rfl

theorem switchError?_eq_firstReason (w : World) (h : HubId) (target : Ref) :
    w.switchError? h target = firstReason (w.switchReasons h target) := by
  simp only [switchReasons, firstReason_cons]
  rfl

theorem switch_refused (hw : w.Seated) {h : HubId} {target : Ref} {e : SwitchError}
    (he : firstReason (w.switchReasons h target) = some e) (p : Payload) :
    ∃ v, Refused e w v ∧
      w.switch h target p = v.push (Task.dropPayload p ++ [.answer (.error e)]) := by
  rw [← switchError?_eq_firstReason] at he
  refine ⟨w.raise e, raise_refused hw e, ?_⟩
  unfold World.switch
  rw [he]

/-- A greenlet is made unless there is a reason not to. -/
theorem createGreenlet_refused (hw : w.Seated) (h : HubId) (run : RunFn) (parent? : Option Ref) :
    match firstReason (w.createReasons h parent?) with
    | some e => ∃ v, Refused e w v ∧ w.createGreenlet h run parent? = (.error e, v)
    | none => ∃ r v, w.createGreenlet h run parent? = (.ok r, v) := by
  unfold createGreenlet
  simp only [createReasons, firstReason_cons]
  cases (w.hub h).closed with
  | true => exact ⟨_, raise_refused hw _, rfl⟩
  | false =>
    cases parent?.isSome &&
        (w.greenlet (parent?.getD (w.hub h).current)).thread != (w.hub h).thread with
    | true => exact ⟨_, raise_refused hw _, rfl⟩
    | false => exact ⟨_, _, rfl⟩

theorem setParent_refused (hw : w.Seated) {r p : Ref} {e : SwitchError} {v : World}
    (h : w.setParent r p = (.error e, v)) : w.reparentError? r p = some e ∧ Refused e w v := by
  unfold setParent at h
  split at h
  · rename_i e' he
    simp only [Prod.mk.injEq, Except.error.injEq] at h
    obtain ⟨rfl, rfl⟩ := h
    exact ⟨he, raise_refused hw e'⟩
  · simp at h

theorem switch_self (hw : w.Seated) {h : HubId}
    (he : firstReason (w.switchReasons h (w.hub h).current) = none) (p : Payload) :
    match p with
    | .ok a => ∃ old v, Cleared old w v ∧ w.switch h (w.hub h).current p =
        v.push ((old.map Task.drop).toList ++ [.answer (.ok a)])
    | .error f => ∃ v, Refused (.propagated f) w v ∧ w.switch h (w.hub h).current p =
        v.push [.answer (.error (.propagated f))] := by
  rw [← switchError?_eq_firstReason] at he
  let name := (w.greenlet (w.hub h).current).id.text
  let w₁ := w.trace ("greenlet " ++ name ++ ": switch to self")
  have hu : Unaltered w w₁ := .write _ _
  have hs : w.switch h (w.hub h).current p = w₁.deliver p := by
    unfold World.switch
    rw [he]
    exact if_pos rfl
  cases p with
  | ok a =>
    have hc := takePending_cleared (hu.seated hw)
    exact ⟨_, _, ⟨hu.trans hc.unaltered, hc.heap, hc.found, hc.empty⟩, hs⟩
  | error f =>
    have hr := raise_refused (hu.seated hw) (.propagated f)
    exact ⟨_, ⟨hu.trans hr.unaltered, hr.registers.vacant, hr.registers.kept⟩, hs⟩

theorem drive_refused (hw : w.Seated) {h : HubId} (hd : (w.hub h).driving = true)
    (hr : (w.hub h).runningFiber = false) (target : Ref) (p : Payload) :
    ∃ v, Refused .switchDuringRelease w v ∧ w.drive h target p =
      v.push (Task.dropPayload p ++ [.drop target, .answer (.error .switchDuringRelease)]) := by
  refine ⟨w.raise .switchDuringRelease, raise_refused hw _, ?_⟩
  unfold drive
  simp only [hd, hr, Bool.not_false, Bool.and_self, if_true]

theorem switchFromFiber_refused (hw : w.Seated) {h : HubId}
    (hf : (w.greenlet (w.hub h).current).fiber.bind (·.get? w.active) = none) (target : Ref)
    (p : Payload) :
    ∃ v, Refused .threadExited w v ∧ w.switchFromFiber h target p =
      v.push (Task.dropPayload p ++ [.drop target, .answer (.error .threadExited)]) := by
  refine ⟨w.raise .threadExited, raise_refused hw _, ?_⟩
  unfold switchFromFiber
  simp only [hf]

/-- The first thread has switched to a greenlet that has finished since. -/
def finished : World :=
  Script.start .empty [("p", [])]
    [.create "p" "p" [] [] none none, .switch "p" (.built [] []) none none] 500

end World

end Switchyard
