import Switchyard.Proofs.Motion.Pending
import Switchyard.Proofs.Pending.Answers
import Switchyard.Proofs.Refusals

/-!
# Raised errors

What puts an answer with an error on a stack has registered that error in the same step. The slot
of its thread has not changed before.
-/

namespace Switchyard

namespace World

variable {e x : SwitchError} {w₀ w w' v : World} {ts us : List Task}

/-- The same thread is active, with the same in its slot. -/
structure SameSlot (w w' : World) : Prop where
  active : w'.active = w.active
  pending : w'.thread.pending = w.thread.pending

namespace SameSlot

theorem refl (w : World) : SameSlot w w := ⟨rfl, rfl⟩

theorem trans (h : SameSlot w₀ w) (h' : SameSlot w w') : SameSlot w₀ w' :=
  ⟨h'.active.trans h.active, h'.pending.trans h.pending⟩

theorem of_threads (ha : w'.active = w.active) (ht : w'.threads = w.threads) : SameSlot w w' :=
  ⟨ha, by rw [thread, thread, ha, ht]⟩

theorem modifyThread (hw : w.Seated) {f : Thread → Thread}
    (hf : ∀ t, (f t).pending = t.pending) : SameSlot w (w.modifyThread f) :=
  ⟨rfl, by rw [thread_modifyThread hw, hf]⟩

theorem of_quiet (hw : w.Seated) (hq : Quiet w w') : SameSlot w w' :=
  ⟨hq.active, (hq.thread hw).2.1⟩

theorem homeHub (hw : w.Seated) {h : HubId} (hh : w.homeHub = (.ok h, w')) : SameSlot w w' := by
  have hq : SameSlot w w.touchHome := .of_quiet hw .touchHome
  unfold World.homeHub at hh
  simp only at hh
  split at hh
  · obtain ⟨-, rfl⟩ := Prod.mk.inj hh
    exact hq
  · obtain ⟨-, rfl⟩ := Prod.mk.inj hh
    have hs := seated_createHub.mpr (Quiet.touchHome.seated hw)
    have hc : SameSlot w.touchHome w.touchHome.createHub.2 := .of_threads rfl rfl
    exact (hq.trans hc).trans (.modifyThread hs fun _ => rfl)
  · cases (Prod.mk.inj hh).1

theorem peek (hw : w.Seated) {name : String} {r : Ref} (h : w.peek name = (some r, w')) :
    SameSlot w w' := by
  unfold World.peek at h
  split at h
  · split at h
    · cases (Prod.mk.inj h).1
    · rename_i hh
      have hs := SameSlot.homeHub hw hh
      simp only at h
      split at h
      · exact (Prod.mk.inj h).2 ▸ hs
      · split at h <;> exact (Prod.mk.inj h).2 ▸ hs
  · exact (Prod.mk.inj h).2 ▸ refl w

theorem handle (hw : w.Seated) {name : String} {r : Ref} (h : w.handle name = (some r, w')) :
    SameSlot w w' := by
  unfold World.handle at h
  split at h
  · rename_i hp
    exact (Prod.mk.inj h).2 ▸ (SameSlot.peek hw hp).trans (.of_threads rfl rfl)
  · cases (Prod.mk.inj h).1

theorem retainAll (os : List Obj) : SameSlot w (w.retainAll os) := by
  induction os generalizing w with
  | nil => exact refl w
  | cons o os ih =>
    have h : SameSlot w (w.retainObj o) := by cases o <;> exact .of_threads rfl rfl
    exact h.trans ih

theorem createGreenlet (hw : w.Seated) {h : HubId} {run : RunFn} {p : Option Ref} {r : Ref}
    (hc : w.createGreenlet h run p = (.ok r, w')) : SameSlot w w' := by
  obtain ⟨-, -, -, id, hq⟩ := createGreenlet_ok hc
  have h₁ := SameSlot.of_quiet (by exact hw) hq
  exact ⟨h₁.active, h₁.pending⟩

end SameSlot

/-- From `w` to `w'` the active thread of `w` registered `e`: it is in the slot that was vacant, and
another slot has not changed. -/
structure Raises (e : SwitchError) (w w' : World) : Prop where
  active : w'.active = w.active
  vacant : w.thread.pending = .vacant → ∃ r, w'.pendingAt (w.active - 1) = .full r ∧
    w'.object? r = some ⟨1, .failure (.ofError e)⟩
  kept : w.thread.pending ≠ .vacant → w'.pendingAt (w.active - 1) = w.thread.pending

namespace Raises

theorem of_refused (hs : SameSlot w₀ w) (hw : w.Seated) (hr : Refused e w v) :
    Raises e w₀ v := by
  have hp : v.pendingAt (w₀.active - 1) = v.thread.pending := by
    rw [← hs.active, ← hr.unaltered.active]
    exact pendingAt_active (hr.unaltered.seated hw)
  rw [← hs.active] at hp
  refine ⟨hr.unaltered.active.trans hs.active, ?_, ?_⟩
  · intro hv
    obtain ⟨r, h₁, h₂⟩ := hr.registers.vacant (hs.pending.trans hv)
    exact ⟨r, by rw [← hs.active, hp, h₁], h₂⟩
  · intro hv
    rw [← hs.active, hp, (hr.registers.kept (hs.pending ▸ hv)).1, hs.pending]

theorem raise (hs : SameSlot w₀ w) (hw : w.Seated) : Raises e w₀ (w.raise e) :=
  of_refused hs hw (raise_refused hw e)

theorem push (h : Raises e w₀ w) (hw : w.Seated) (ts : List Task) : Raises e w₀ (w.push ts) := by
  have hp : (w.push ts).pendingAt (w₀.active - 1) = w.pendingAt (w₀.active - 1) := by
    rw [World.push, pendingAt_modifyThread hw]
    split
    · rename_i hi
      rw [hi]
      exact (pendingAt_active hw).symm
    · rfl
  exact ⟨h.active, fun hv => by rw [hp]; exact h.vacant hv, fun hv => hp.trans (h.kept hv)⟩

theorem quiet (h : Raises e w₀ w) (hq : Quiet w w') : Raises e w₀ w' where
  active := hq.active.trans h.active
  vacant hv := by
    rw [hq.pendingAt, hq.object?]
    exact h.vacant hv
  kept hv := (hq.pendingAt _).trans (h.kept hv)

theorem homeHub (hs : SameSlot w₀ w) (hw : w.Seated) (hh : w.homeHub = (.error e, w')) :
    Raises e w₀ w' := by
  unfold World.homeHub at hh
  simp only at hh
  split at hh
  · cases (Prod.mk.inj hh).1
  · cases (Prod.mk.inj hh).1
  · obtain ⟨he, rfl⟩ := Prod.mk.inj hh
    obtain rfl := Except.error.inj he
    exact raise (hs.trans (.of_quiet hw .touchHome)) (Quiet.touchHome.seated hw)

theorem hubFor (hs : SameSlot w₀ w) (hw : w.Seated) {name : Option String}
    (hh : w.hubFor name = (.error e, w')) : Raises e w₀ w' := by
  unfold World.hubFor at hh
  split at hh
  · cases (Prod.mk.inj hh).1
  · exact homeHub hs hw hh

theorem registerSwitch (hs : SameSlot w₀ w) (hw : w.Seated) {h : HubId} {r : Ref}
    (hr : w.registerSwitch h r = (.error e, w')) : Raises e w₀ w' := by
  unfold World.registerSwitch at hr
  simp only at hr
  split at hr
  · obtain ⟨he, rfl⟩ := Prod.mk.inj hr
    obtain rfl := Except.error.inj he
    exact raise hs hw
  · cases (Prod.mk.inj hr).1

end Raises

/-- From `w₀` to `w` an answer with `e` was added at most to the stack of the active thread, which
has registered `e` then, or it was aside with a stack that was taken up. -/
structure Gives (e : SwitchError) (w₀ w : World) : Prop where
  others : ∀ i, i ≠ w₀.active - 1 →
    (w.returning i).count e ≤ (w₀.returning i).count e ∨ TakesUp e w₀ w
  own : (w.returning (w₀.active - 1)).count e ≤ (w₀.returning (w₀.active - 1)).count e ∨
    TakesUp e w₀ w ∨ Raises e w₀ w

theorem returning_push (hw : w.Seated) (ts : List Task) (i : Nat) :
    (w.push ts).returning i =
      if i = w.active - 1 then Item.refusals (ts.map .task) ++ w.returning i else w.returning i := by
  unfold World.returning
  rw [push_eq_setStack hw, stackAt_setStack hw]
  split
  · subst_vars
    rw [Item.refusals_append, stack_eq_stackAt]
  · rfl

namespace Tacit

theorem gives (h : Tacit e w₀ w) : Gives e w₀ w :=
  ⟨fun i _ => h.count i, (h.count _).imp_right .inl⟩

theorem answering (h : Tacit e w₀ w) (hr : Raises x w₀ w)
    (ht : ts.all Task.isSilent = true) (hu : us.all Task.isSilent = true) :
    Gives e w₀ (w.push (ts ++ .answer (.error x) :: us)) := by
  have hn : Item.refusals ((ts ++ .answer (.error x) :: us).map .task) = [x] := by
    rw [List.map_append, List.map_cons, Item.refusals_append, Item.refusals_task,
      Item.refusals_silent ht, Item.refusals_silent hu]
    rfl
  have hup : TakesUp e w₀ w → TakesUp e w₀ (w.push (ts ++ .answer (.error x) :: us)) := id
  have hc (i : Nat) (hi : i ≠ w₀.active - 1 ∨ x ≠ e) :
      ((w.push (ts ++ .answer (.error x) :: us)).returning i).count e ≤
        (w₀.returning i).count e ∨ TakesUp e w₀ (w.push (ts ++ .answer (.error x) :: us)) := by
    rw [returning_push h.seated, hr.active]
    split
    · have hx : x ≠ e := hi.resolve_left (not_not_intro ‹_›)
      rw [hn, List.singleton_append, List.count_cons_of_ne hx]
      exact (h.count i).imp_right hup
    · exact (h.count i).imp_right hup
  refine ⟨fun i hi => hc i (.inl hi), ?_⟩
  by_cases hx : x = e
  · subst hx
    exact .inr (.inr (hr.push h.seated _))
  · exact (hc _ (.inr hx)).imp_right .inl

theorem raising (h : Tacit e w₀ w) (hs : SameSlot w₀ w) (ht : ts.all Task.isSilent = true) :
    Gives e w₀ ((w.raise x).push (ts ++ [.answer (.error x)])) :=
  answering (h.level (.raise x)) (.raise hs h.seated) ht rfl

end Tacit

end World

end Switchyard
