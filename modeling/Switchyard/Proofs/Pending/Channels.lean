import Switchyard.Config.Session
import Switchyard.Proofs.Pending.Returns
import Switchyard.Proofs.Relay.Snapshot

/-!
# The two channels of an error

An operation that fails returns its error and registers it as the pending failure of its thread. The
two agree: when the operation returns, the slot holds the failure that stands for the error, or the
one that was there before. Between operations a slot is a cell that keeps the first failure.

At the end of a thread its slots come to their ends too. An error that is raised after that has no
slot to go to.
-/

namespace Switchyard

namespace Config.Session

/-- The error that a command fails with, a mere check apart. -/
def refusal? (s : Session) : Command → Option SwitchError
  | .fix => match ConfigCell.fix s.fixed s.draft with
    | .ok _ => none
    | .error r => some (.ofRefusal r)
  | _ => none

/-- What a command does to the pending failure: it keeps the first one, and only a look at it takes
it. -/
structure Registers (s : Session) (c : Command) : Prop where
  answered : ∀ e, s.refusal? c = some e → (s.step c).1 = e.datum
  kept : c ≠ .pending → (s.step c).2.pending = s.pending.or ((s.refusal? c).map .ofError)
  taken : c = .pending → (s.step c).2.pending = none

theorem registers (s : Session) (c : Command) : s.Registers c := by
  constructor
  · intro e he
    cases c with
    | fix =>
      simp only [refusal?] at he
      simp only [step]
      cases hf : ConfigCell.fix s.fixed s.draft with
      | ok cell =>
        rw [hf] at he
        cases he
      | error r =>
        rw [hf] at he
        obtain rfl := Option.some.inj he
        rfl
    | _ => cases he
  · intro hc
    cases c with
    | fix =>
      simp only [refusal?, step]
      cases ConfigCell.fix s.fixed s.draft with
      | ok cell => exact (Option.or_none).symm
      | error r => simp [register, Option.or_some]
    | validate =>
      simp only [refusal?, step]
      cases s.draft.fault? <;> simp
    | pending => exact absurd rfl hc
    | _ => exact (Option.or_none).symm
  · rintro rfl
    rfl

end Config.Session

namespace World

variable {e : SwitchError} {w₀ u v w : World} {tr tr₀ : List World} {i j : Nat} {r : Ref}

/-- An operation on `w` fails with `e`. -/
inductive Fails (w : World) : SwitchError → World → Prop where
  | homeHub {e : SwitchError} {v : World} (h : w.homeHub = (.error e, v)) : Fails w e v
  | hubFor {name : Option String} {e : SwitchError} {v : World}
      (h : w.hubFor name = (.error e, v)) : Fails w e v
  | createGreenlet {i : HubId} {run : RunFn} {parent? : Option Ref} {e : SwitchError} {v : World}
      (h : w.createGreenlet i run parent? = (.error e, v)) : Fails w e v
  | setParent {r p : Ref} {e : SwitchError} {v : World} (h : w.setParent r p = (.error e, v)) :
      Fails w e v
  | registerSwitch {i : HubId} {r : Ref} {e : SwitchError} {v : World}
      (h : w.registerSwitch i r = (.error e, v)) : Fails w e v
  | ownerOf {r : Ref} {e : SwitchError} {v : World} (h : w.ownerOf r = (.error e, v)) : Fails w e v
  /-- A switch or a throw that is refused. -/
  | switch {i : HubId} {target : Ref} {p : Payload} {e : SwitchError}
      (h : w.switchError? i target = some e) : Fails w e (w.switch i target p)
  /-- It is refused too where a stack is being released, and where the current greenlet is not on
  the thread. -/
  | drive {i : HubId} {target : Ref} {p : Payload} (hd : (w.hub i).driving = true)
      (hr : (w.hub i).runningFiber = false) : Fails w .switchDuringRelease (w.drive i target p)
  | switchFromFiber {i : HubId} {target : Ref} {p : Payload}
      (hf : (w.greenlet (w.hub i).current).fiber.bind (·.get? w.active) = none) :
      Fails w .threadExited (w.switchFromFiber i target p)
  /-- A switch that comes to a failure, or finds its thread gone. -/
  | refuse (e : SwitchError) : Fails w e (w.refuse e)
  /-- A view of an object as a kind that does not fit. -/
  | view (o : Obj) (k : Kind) : Fails w (w.mismatch o k) (w.viewObject o k false).2
  /-- The same for good, which drops the reference. -/
  | into {name : String} {o : Obj} {k : Kind} {family : Bool} (ho : w.objects.find? name = some o)
      (hf : (if family then w.inFamily o k else w.isKind o k) = false) :
      Fails w (w.mismatch o k) (w.objectIntoStep name (some k) family)
  /-- A received object that is no greenlet is to be taken for one. -/
  | bind {at_ : Selector} {as_ : String} {catches : Option Bool} {o : Obj}
      (ho : select w.frame.last at_ = some o)
      (hf : ∀ r, o = some r → (w.valueD r).kind.family ≠ .greenlet) :
      Fails w (.typeMismatch Kind.greenlet.name (w.kindName o)) (w.bindStep at_ as_ catches)

private theorem Raises.of_error {α : Type} {x y : SwitchError} {v' : World} (hw : w.Seated)
    (h : ((.error x : Except SwitchError α), w.raise x) = (.error y, v')) : Raises y w v' := by
  obtain ⟨he, rfl⟩ := Prod.mk.inj h
  obtain rfl := Except.error.inj he
  exact .raise (.refl w) hw

private theorem Raises.answered (hw : w.Seated) (hr : Refused e w v) (ts : List Task) :
    Raises e w (v.push ts) :=
  (Raises.of_refused (.refl w) hw hr).push (hr.unaltered.seated hw) ts

/-- Whatever fails has registered its error. -/
theorem Fails.raises (hw : w.Seated) (h : Fails w e v) : Raises e w v := by
  cases h with
  | homeHub h => exact .homeHub (.refl w) hw h
  | hubFor h => exact .hubFor (.refl w) hw h
  | createGreenlet h =>
    unfold World.createGreenlet at h
    simp only at h
    split at h
    · exact .of_error hw h
    · split at h
      · exact .of_error hw h
      · cases (Prod.mk.inj h).1
  | setParent h =>
    unfold World.setParent at h
    split at h
    · exact .of_error hw h
    · cases (Prod.mk.inj h).1
  | registerSwitch h => exact .registerSwitch (.refl w) hw h
  | ownerOf h =>
    unfold World.ownerOf at h
    split at h
    · cases (Prod.mk.inj h).1
    · exact .of_error hw h
  | switch h =>
    obtain ⟨v, hr, he⟩ := switch_refused hw ((switchError?_eq_firstReason ..).symm.trans h) _
    exact he ▸ .answered hw hr _
  | drive hd hr =>
    obtain ⟨v, hr, he⟩ := drive_refused hw hd hr _ _
    exact he ▸ .answered hw hr _
  | switchFromFiber hf =>
    obtain ⟨v, hr, he⟩ := switchFromFiber_refused hw hf _ _
    exact he ▸ .answered hw hr _
  | refuse e => exact .answered hw (raise_refused hw e) _
  | view o k => exact .raise (.refl w) hw
  | @into name o k family ho hf =>
    have hs : SameSlot w { w with objects := w.objects.erase name } := .of_threads rfl rfl
    have hr : Raises (w.mismatch o k) w _ := .raise hs hw
    have hv := (Level.raise (w := { w with objects := w.objects.erase name })
      (w.mismatch o k)).seated hw
    have hp := hr.push hv ((o.map Task.drop).toList ++ [.note "obj_into" [(w.mismatch o k).datum]])
    unfold World.objectIntoStep
    rw [ho]
    simp only [hf, Bool.false_eq_true, if_false]
    exact hp
  | @bind at_ as_ catches o ho hf =>
    have hr : Raises (.typeMismatch Kind.greenlet.name (w.kindName o)) w
        (bindStep.refused catches o w) := by
      unfold bindStep.refused
      have h₁ := Raises.raise (e := .typeMismatch Kind.greenlet.name (w.kindName o)) (.refl w) hw
      have hs := (Level.raise (w := w)
        (.typeMismatch Kind.greenlet.name (w.kindName o))).seated hw
      exact (h₁.quiet (.note _ _)).push ((Quiet.note _ _).seated hs) _
    unfold World.bindStep
    rw [ho]
    cases o with
    | none => exact hr
    | some r =>
      simp only [if_neg (hf r rfl)]
      exact hr

theorem pendingFetchStep_full (hw : w.Seated) (hp : w.thread.pending = .full r) (out : String) :
    (w.pendingFetchStep out).outs.find? out = some (some r) ∧
      (w.pendingFetchStep out).thread.pending = .vacant ∧
      (w.pendingFetchStep out).heap = w.heap := by
  have hc := takePending_cleared hw
  have hs := hc.unaltered.seated hw
  have ht : w.takePending = (some r, w.takePending.2) := by
    refine Prod.ext ?_ rfl
    rw [hc.found, hp]
    rfl
  have hv : w.takePending.2.thread.pending = .vacant := by
    unfold takePending
    simp only [(pending_touchPending hw).trans hp]
    rw [thread_modifyThread (seated_touchPending hw)]
  unfold pendingFetchStep
  rw [ht]
  generalize w.takePending.2 = v at hc hs hv
  refine ⟨?_, ?_, hc.heap⟩
  · exact (Table.find?_insert _ _ _ _).trans (if_pos rfl)
  · exact (pending_push (w := (v.bindOut out (some r)).2) hs _).trans hv

theorem pendingFetchStep_empty (hw : w.Seated) (hp : w.thread.pending.get? = none) (out : String) :
    (w.pendingFetchStep out).outs.find? out = some (w.outs.find? out).join ∧
      (w.pendingFetchStep out).thread.pending = w.thread.pending := by
  have hs := seated_touchPending hw
  have hq := pending_touchPending hw
  have ht : w.takePending = (none, w.touchPending) := by
    unfold takePending
    cases hv : w.touchPending.thread.pending with
    | full r =>
      rw [← hq, hv] at hp
      cases hp
    | _ => simp only [hv]
  unfold pendingFetchStep
  simp only [ht]
  let v : World := { w.touchPending with
    outs := w.touchPending.outs.insert out (w.outs.find? out).join }
  have hn : Quiet v (v.note "pend_fetch"
    [.list [.bool false, .bool (w.outs.find? out).join.isSome]]) := .note _ _
  refine ⟨?_, ((hn.thread hs).2.1).trans hq⟩
  rw [show (v.note "pend_fetch" [.list [.bool false,
    .bool (w.outs.find? out).join.isSome]]).outs = v.outs from hn.outs]
  exact (Table.find?_insert _ _ _ _).trans (if_pos rfl)

/-- From `u` to `w` the slots are cells that keep the first failure; `tr` are the worlds that a step
was made from meanwhile. -/
structure Cells (tr : List World) (u w : World) : Prop where
  /-- A slot is filled with a failure that was not there before. -/
  filled : ∀ i r, w.pendingAt i = .full r →
    u.pendingAt i = .full r ∨ u.heap.size ≤ r ∧ ∃ f, w.failureAt i = some f
  /-- What is in a slot stays there, unless its thread takes it or comes to its end. -/
  kept : ∀ i r, (∀ v ∈ tr, v.active - 1 = i → v.clearing = false) → u.pendingAt i = .full r →
    w.pendingAt i = .gone ∨ w.pendingAt i = .full r ∧ w.failureAt i = u.failureAt i
  /-- A slot is out of reach for other threads. -/
  apart : ∀ i < u.threads.size, (∀ v ∈ tr, v.active - 1 ≠ i) →
    w.pendingAt i = u.pendingAt i ∧ w.failureAt i = u.failureAt i
  /-- A slot that has come to its end has none after it. -/
  gone : ∀ i, u.pendingAt i = .gone → w.pendingAt i = .gone
  /-- A failure is in one slot at most. -/
  alone : ∀ i j r, w.pendingAt i = .full r → w.pendingAt j = .full r → i = j
  /-- What is in no slot, since it was taken out, is in none ever after. -/
  once : ∀ r < u.heap.size, (∀ i, u.pendingAt i ≠ .full r) → ∀ i, w.pendingAt i ≠ .full r

private theorem failureAt_congr (hu : u.Latched) (hku : Kept [] u) (hw : w.Latched)
    (hkw : Kept [] w) (h : Latches u w) (hi : w.pendingAt i = u.pendingAt i) :
    w.failureAt i = u.failureAt i := by
  cases hp : u.pendingAt i with
  | full r =>
    obtain ⟨f, hf⟩ := hu.tells i r hp
    rw [hu.failureAt hku hp hf,
      hw.failureAt hkw (hi.trans hp) (h.tells r f (hu.slotted i r hp) hf)]
  | _ => simp [World.failureAt, hi, hp, Slot.get?]

private theorem Run.apart (hs : w₀.Starts) (h₀ : Run w₀ tr₀ u) (h : Run u tr w)
    (hi : i < u.threads.size) (ha : ∀ v ∈ tr, v.active - 1 ≠ i) :
    i < w.threads.size ∧ w.pendingAt i = u.pendingAt i := by
  induction h with
  | start => exact ⟨hi, rfl⟩
  | @step tr v h hv ih =>
    obtain ⟨hlt, hp⟩ := ih fun x hx => ha x (List.mem_cons_of_mem _ hx)
    obtain ⟨home, hl⟩ := (h₀.append h).locked hs
    have hn := ((h₀.append h).kept hs).pendingAt_next hl.manned hv
      (ha _ List.mem_cons_self).symm hlt
    exact ⟨hn.1, hn.2.trans hp⟩
  | yield h hi' hn ih => exact ih ha

/-- Between any two points of a run the slots are cells that keep the first failure. -/
theorem Run.cells (hs : w₀.Starts) (h₀ : Run w₀ tr₀ u) (h : Run u tr w) : Cells tr u w := by
  have hu := h₀.latched hs
  have hw := (h₀.append h).latched hs
  have hkw := (h₀.append h).kept hs
  have hl := Run.latches hs h₀ hu h
  have same (i : Nat) := failureAt_congr (i := i) hu (h₀.kept hs) hw hkw hl
  refine ⟨fun i r hr => ?_, fun i r hc hr => ?_, fun i hi ha => ?_, hl.gone, hw.alone,
    fun r hr hn => hl.notHeld hr hn⟩
  · rcases hl.held i r hr with hr' | ⟨hn, -, f, hf⟩
    · exact .inl hr'
    · exact .inr ⟨hn, f, hw.failureAt hkw hr hf⟩
  · rcases (Run.clings hs h₀ h hc).full r hr with hr' | hg
    · exact .inr ⟨hr', same i (hr'.trans hr.symm)⟩
    · exact .inl hg
  · have hp := (Run.apart hs h₀ h hi ha).2
    exact ⟨hp, same i hp⟩

/-- The world `w`, which a run has come to by way of `u`; `tr₀` and `tr` are the worlds that a step
was made from before and since. -/
structure Channels (tr₀ tr : List World) (u w : World) : Prop where
  /-- An operation that fails at once has registered its error. -/
  failed : ∀ e v, Fails w e v → Raises e w v
  /-- So has a choice of the configuration that is refused. -/
  configured : ∀ (s : Config.Session) c, s.Registers c
  /-- So has an operation that returns an error to a switch. The error has been on its way since the
  step from `x`; unless the pending failure was taken meanwhile, the slot of the thread has come to
  its end, or holds the failure for the error, or the one that it held before the error. -/
  returned : ∀ e below, w.thread.stack = .task (.answer (.error e)) :: below →
    ∃ tr₂ x tr₁, tr ++ tr₀ = tr₂ ++ x :: tr₁ ∧
      Since e (w.active - 1) ((Item.refusals below).count e) x tr₂ ∧
      (TakesUp e x x.next ∨ x.active = w.active ∧ Raises e x x.next ∧
        ((∀ v ∈ tr₂, v.active = w.active → v.clearing = false) →
          w.thread.pending = .gone ∨ w.failureAt (w.active - 1) =
            some ((x.failureAt (w.active - 1)).getD (.ofError e))))
  cells : Cells tr u w
  /-- What asks for the pending failure, or delivers a value, leaves none. -/
  emptied : w.clearing = true → w.next.thread.pending.get? = none
  /-- A fetch hands the failure out. -/
  fetched : ∀ out r, w.thread.pending = .full r →
    (w.pendingFetchStep out).outs.find? out = some (some r) ∧
      (w.pendingFetchStep out).thread.pending = .vacant ∧ (w.pendingFetchStep out).heap = w.heap
  /-- It hands out nothing where there is none. -/
  unfetched : ∀ out, w.thread.pending.get? = none →
    (w.pendingFetchStep out).outs.find? out = some (w.outs.find? out).join ∧
      (w.pendingFetchStep out).thread.pending = w.thread.pending

private theorem Run.seated (hs : w₀.Starts) (h : Run w₀ tr w) : ∀ v ∈ tr, v.Seated := by
  induction h with
  | start => exact List.forall_mem_nil _
  | step h _ ih =>
    exact List.forall_mem_cons.mpr ⟨(h.kept hs).seated, ih⟩
  | yield _ _ _ ih => exact ih

/-- At every point of a run the two channels of an error agree. -/
theorem Run.channels (hs : w₀.Starts) (h₀ : Run w₀ tr₀ u) (h : Run u tr w) :
    Channels tr₀ tr u w := by
  have hw : w.Seated := ((h₀.append h).kept hs).seated
  refine ⟨fun e v hf => hf.raises hw, Config.Session.registers, fun e below ht => ?_,
    Run.cells hs h₀ h, empty_next hw, fun out r hp => pendingFetchStep_full hw hp out,
    fun out hp => pendingFetchStep_empty hw hp out⟩
  have hk : (Item.refusals below).count e < (w.returning (w.active - 1)).count e := by
    rw [returning, ← stack_eq_stackAt, ht, Item.refusals_task]
    simp [Task.refusal?]
  obtain ⟨tr₂, x, tr₁, he, h₁, hx, h₂, hc⟩ := (h₀.append h).origin hs hk
  refine ⟨tr₂, x, tr₁, he, hc, hc.cause.imp_right ?_⟩
  rintro ⟨ha, hr⟩
  have hseat := List.forall_mem_append.mp (he ▸ Run.seated hs (h₀.append h))
  have place {y : World} (hy : y.Seated) (hp : y.active - 1 = w.active - 1) :
      y.active = w.active := by
    have h₁ := hy.1
    have h₂ := hw.1
    unfold ThreadId at *
    omega
  refine ⟨place (hseat.2 _ List.mem_cons_self) ha, hr, fun hcl => ?_⟩
  have hst := hr.stays hs h₁ hx h₂ fun y hy hp =>
    hcl y hy (place (hseat.1 y hy) (hp.trans ha))
  rwa [ha, pendingAt_active hw] at hst

/-- The first thread switches to a greenlet that is dead. -/
def refusing : World :=
  Script.start .empty [("p", [])]
    [.create "p" "p" [] [] none none, .switch "p" (.built [] []) none none,
      .switch "p" (.built [] []) none none] 500

theorem Run.channels_refusing : ∃ tr, Run refusing tr (refusing.run 46) ∧
    Channels [] tr refusing (refusing.run 46) ∧
    (refusing.run 46).returning 0 = [.deadTarget ⟨2⟩] ∧
    (refusing.run 46).failureAt 0 = some (.ofError (.deadTarget ⟨2⟩)) := by
  have hs : refusing.Starts := .script ..
  obtain ⟨tr, h⟩ := (@Run.start refusing).run 46
  exact ⟨tr, h, Run.channels hs .start h, by decide +kernel, by decide +kernel⟩

/-- The slots of a thread come to their ends at its exit, that of the pending failure first. What a
greenlet of the thread owns is dropped after that, and looks for the hub of the thread. -/
def exiting : World :=
  Script.start .empty [("b", [])]
    [.spawn [.create "g" "b" [⟨"c", [.current, .pending]⟩] [] none none, .pending]] 500

/-- An error is not registered once the slot has come to its end. -/
theorem unregistered_exiting : ∃ tr e v, Run exiting tr (exiting.run 13) ∧
    Fails (exiting.run 13) e v ∧ v.pendingFull = false := by
  obtain ⟨tr, h⟩ := (@Run.start exiting).run 13
  refine ⟨tr, .threadExited, (exiting.run 13).homeHub.2, h, .homeHub (Prod.ext ?_ rfl), ?_⟩
  · decide +kernel
  · decide +kernel

end World

end Switchyard
