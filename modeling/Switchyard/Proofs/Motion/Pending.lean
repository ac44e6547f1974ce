import Switchyard.Proofs.Motion.Aside
import Switchyard.Proofs.Motion.Run

/-!
# Slots for pending failures

A slot is filled with a new failure, and only while it is vacant. Nothing but an operation that asks
for the failure, or a switch that delivers a value, empties it before its thread ends. The object in
it is there as long as it is in the slot, and stays the failure that it is.
-/

namespace Switchyard

open World

namespace World

variable {w w' w'' : World} {i j : Nat} {r : Ref} {f : Failure}

/-- The slot for the pending failure of the thread at place `i`. It is vacant while there is no
thread. -/
def pendingAt (w : World) (i : Nat) : Slot Ref := (w.threads[i]?.map Thread.pending).getD .vacant

def failureAt (w : World) (i : Nat) : Option Failure := (w.pendingAt i).get?.bind w.failureOf

theorem pendingAt_active (hw : w.Seated) : w.pendingAt (w.active - 1) = w.thread.pending := by
  rw [pendingAt, hw.getElem?]
  rfl

theorem pendingAt_modifyThread (hw : w.Seated) (u : Thread → Thread) (i : Nat) :
    (w.modifyThread u).pendingAt i =
      if i = w.active - 1 then (u w.thread).pending else w.pendingAt i := by
  unfold pendingAt World.modifyThread
  simp only [Array.getElem?_modify, @eq_comm _ i]
  split
  · subst_vars
    rw [hw.getElem?]
    rfl
  · rfl

theorem pendingAt_congr (h : w'.threads = w.threads) (i : Nat) : w'.pendingAt i = w.pendingAt i := by
  rw [pendingAt, pendingAt, h]

theorem Quiet.pendingAt (hq : Quiet w w') (i : Nat) : w'.pendingAt i = w.pendingAt i := by
  have h := congrArg (fun a => (a[i]?).map Core.pending) hq.threads
  simp only [Array.getElem?_map, Option.map_map] at h
  exact congrArg (·.getD .vacant) h

theorem pendingAt_spawnStep (hw : w.Seated) (steps : List Script.Step) (i : Nat) :
    (w.spawnStep steps).pendingAt i = w.pendingAt i := by
  have hp : (w.push [.join (w.threads.size + 1)]).pendingAt i = w.pendingAt i := by
    rw [World.push, pendingAt_modifyThread hw]
    split
    · subst_vars
      exact (pendingAt_active hw).symm
    · rfl
  rw [← hp]
  simp only [pendingAt, World.spawnStep, Array.getElem?_push]
  split
  · subst_vars
    rw [Array.getElem?_eq_none (Nat.le_refl _)]
    rfl
  · rfl

def Tells (w : World) (r : Ref) (f : Failure) : Prop :=
  ∀ o, w.object? r = some o → o.value = .failure f

/-- Every slot refers to a place of the heap. -/
def Slotted (w : World) : Prop := ∀ i r, w.pendingAt i = .full r → r < w.heap.size

/-- From `w` to `w'` slots get new failures only, and what is a failure stays so. -/
structure Latches (w w' : World) : Prop where
  size : w.heap.size ≤ w'.heap.size
  tells : ∀ r f, r < w.heap.size → w.Tells r f → w'.Tells r f
  held : ∀ i r, w'.pendingAt i = .full r → w.pendingAt i = .full r ∨
    w.heap.size ≤ r ∧ r < w'.heap.size ∧ ∃ f, w'.Tells r f
  gone : ∀ i, w.pendingAt i = .gone → w'.pendingAt i = .gone
  alone : ∀ i j r, w.heap.size ≤ r → w'.pendingAt i = .full r → w'.pendingAt j = .full r → i = j

namespace Latches

theorem slotted (h : Latches w w') (hb : w.Slotted) : w'.Slotted := fun i r hr => by
  rcases h.held i r hr with hr | ⟨-, hr, -⟩
  · exact Nat.lt_of_lt_of_le (hb i r hr) h.size
  · exact hr

theorem trans (h : Latches w w') (h' : Latches w' w'') : Latches w w'' where
  size := Nat.le_trans h.size h'.size
  tells r f hr ht := h'.tells r f (Nat.lt_of_lt_of_le hr h.size) (h.tells r f hr ht)
  held i r hr := by
    rcases h'.held i r hr with hr | ⟨h₁, h₂, hf⟩
    · refine (h.held i r hr).imp_right ?_
      rintro ⟨h₁, h₂, f, hf⟩
      exact ⟨h₁, Nat.lt_of_lt_of_le h₂ h'.size, f, h'.tells r f h₂ hf⟩
    · exact .inr ⟨Nat.le_trans h.size h₁, h₂, hf⟩
  gone i hg := h'.gone i (h.gone i hg)
  alone i j r hr hi hj := by
    by_cases hlt : w'.heap.size ≤ r
    · exact h'.alone i j r hlt hi hj
    · exact h.alone i j r hr ((h'.held i r hi).resolve_right fun hn => hlt hn.1)
        ((h'.held j r hj).resolve_right fun hn => hlt hn.1)

theorem of_slots (hb : w.Slotted) (hs : w.heap.size ≤ w'.heap.size)
    (ht : ∀ r f, r < w.heap.size → w.Tells r f → w'.Tells r f)
    (hp : ∀ i r, w'.pendingAt i = .full r → w.pendingAt i = .full r)
    (hg : ∀ i, w.pendingAt i = .gone → w'.pendingAt i = .gone) : Latches w w' where
  size := hs
  tells := ht
  held i r h := .inl (hp i r h)
  gone := hg
  alone i _ r hr h _ := absurd (hb i r (hp i r h)) (Nat.not_lt.mpr hr)

theorem of_eq (hb : w.Slotted) (ht : w'.threads = w.threads) (hh : w'.heap = w.heap) :
    Latches w w' :=
  of_slots hb (Nat.le_of_eq (hh ▸ rfl))
    (fun r f _ h o ho => h o (by rwa [World.object?, hh] at ho))
    (fun i r h => (pendingAt_congr ht i) ▸ h) fun i h => (pendingAt_congr ht i).trans h

theorem refl (hb : w.Slotted) : Latches w w := of_eq hb rfl rfl

theorem of_quiet (hb : w.Slotted) (hq : Quiet w w') : Latches w w' :=
  of_slots hb (Nat.le_of_eq (hq.heap ▸ rfl))
    (fun r f _ h o ho => h o (by rwa [World.object?, hq.heap] at ho))
    (fun i r h => hq.pendingAt i ▸ h) fun i h => (hq.pendingAt i).trans h

theorem modifyThread (hw : w.Seated) (hb : w.Slotted) {u : Thread → Thread}
    (hu : (u w.thread).pending = w.thread.pending ∨
      (u w.thread).pending = .vacant ∧ w.thread.pending ≠ .gone ∨ (u w.thread).pending = .gone) :
    Latches w (w.modifyThread u) := by
  refine of_slots hb (Nat.le_refl _) (fun _ _ _ h => h) (fun i r h => ?_) fun i h => ?_
  · rw [pendingAt_modifyThread hw] at h
    split at h
    · subst_vars
      rw [pendingAt_active hw]
      rcases hu with hu | ⟨hu, -⟩ | hu
      · exact hu ▸ h
      · simp [hu] at h
      · simp [hu] at h
    · exact h
  · rw [pendingAt_modifyThread hw]
    split
    · subst_vars
      rw [pendingAt_active hw] at h
      rcases hu with hu | ⟨-, hn⟩ | hu
      · exact hu.trans h
      · exact absurd h hn
      · exact hu
    · exact h

theorem setStack (hw : w.Seated) (hb : w.Slotted) (s : List (Item Task)) :
    Latches w (w.setStack s) :=
  modifyThread hw hb (.inl rfl)

theorem modifyObject (hb : w.Slotted) {u : Object → Object}
    (hu : ∀ o f, w.object? r = some o → o.value = .failure f → (u o).value = .failure f) :
    Latches w (w.modifyObject r u) := by
  refine of_slots hb (by simp [World.modifyObject]) (fun q f _ h o ho => ?_) (fun _ _ h => h)
    fun _ h => h
  rw [object?_modifyObject] at ho
  split at ho
  · subst_vars
    obtain ⟨o', ho', rfl⟩ := Option.map_eq_some_iff.mp ho
    exact hu o' f ho' (h o' ho')
  · exact h o ho

theorem setCount (hb : w.Slotted) {u : Object → Object} (hu : ∀ o, (u o).value = o.value) :
    Latches w (w.modifyObject r u) :=
  modifyObject hb fun o _ _ h => (hu o).trans h

theorem modifyGreenlet (hb : w.Slotted) (u : Greenlet → Greenlet) :
    Latches w (w.modifyGreenlet r u) :=
  modifyObject hb fun o f _ h => by rw [h]; exact h

theorem alloc (hb : w.Slotted) (v : Value) : Latches w (w.alloc v).2 := by
  refine of_slots hb (by simp [World.alloc]) (fun r f hr h o ho => ?_) (fun _ _ h => h) fun _ h => h
  rw [object?_alloc, if_neg (Nat.ne_of_lt hr)] at ho
  exact h o ho

theorem erase (hb : w.Slotted) (r : Ref) : Latches w (w.erase r) := by
  refine of_slots hb (by simp [World.erase]) (fun q f _ h o ho => ?_) (fun _ _ h => h) fun _ h => h
  rw [object?_erase] at ho
  split at ho
  · cases ho
  · exact h o ho

theorem register (hw : w.Seated) (hb : w.Slotted) (f : Failure) (hv : w.thread.pending = .vacant) :
    Latches w ((w.alloc (.failure f)).2.modifyThread fun t =>
      { t with pending := .full w.heap.size }) := by
  have ha := alloc hb (.failure f)
  have hsize : (w.alloc (.failure f)).2.heap.size = w.heap.size + 1 := by simp [World.alloc]
  have hslot (i : Nat) : ((w.alloc (.failure f)).2.modifyThread fun t =>
      { t with pending := .full w.heap.size }).pendingAt i =
      if i = w.active - 1 then .full w.heap.size else w.pendingAt i :=
    pendingAt_modifyThread (w := (w.alloc (.failure f)).2) hw _ i
  refine ⟨ha.size, ha.tells, fun i r h => ?_, fun i h => ?_, fun i j r hr hi hj => ?_⟩
  · rw [hslot] at h
    split at h
    · obtain rfl := Slot.full.inj h
      refine .inr ⟨Nat.le_refl _, hsize ▸ Nat.lt_succ_self _, f, fun o ho => ?_⟩
      have ho' : (w.alloc (.failure f)).2.object? w.heap.size = some o := ho
      rw [object?_alloc, if_pos rfl] at ho'
      obtain rfl := Option.some.inj ho'
      rfl
    · exact .inl h
  · rw [hslot]
    split
    · subst_vars
      rw [pendingAt_active hw, hv] at h
      cases h
    · exact h
  · -- Only the slot that was filled refers to a place that was not there before.
    have key (k : Nat) (hk : ((w.alloc (.failure f)).2.modifyThread fun t =>
        { t with pending := .full w.heap.size }).pendingAt k = .full r) : k = w.active - 1 := by
      rw [hslot] at hk
      split at hk
      · assumption
      · exact absurd (hb k r hk) (Nat.not_lt.mpr hr)
    rw [key i hi, key j hj]

theorem modifyHub (hb : w.Slotted) (h : HubId) (u : Hub → Hub) : Latches w (w.modifyHub h u) :=
  of_eq hb rfl rfl

theorem spawnStep (hw : w.Seated) (hb : w.Slotted) (steps : List Script.Step) :
    Latches w (w.spawnStep steps) := by
  refine of_slots hb (Nat.le_refl _) (fun _ _ _ h => h) (fun i r h => ?_) fun i h => ?_
  · rwa [pendingAt_spawnStep hw] at h
  · rwa [pendingAt_spawnStep hw]

theorem createHub (hb : w.Slotted) : Latches w w.createHub.2 := by
  obtain ⟨-, id, hq⟩ := createHub_quiet w
  have h₁ := alloc hb (.greenlet (w.newMain id))
  have h₂ : Latches w ((w.alloc (.greenlet (w.newMain id))).2.retain w.heap.size) :=
    h₁.trans (setCount (h₁.slotted hb) fun _ => rfl)
  refine (h₂.trans ?_).trans (of_quiet ?_ hq)
  · exact of_eq (h₂.slotted hb) rfl rfl
  · exact h₂.slotted hb

theorem newHubStep (hw : w.Seated) (hb : w.Slotted) (name : String) :
    Latches w (w.newHubStep name) := by
  obtain ⟨d, he⟩ := newHubStep_eq w name
  have h₁ : Latches w w.createHub.2 := createHub hb
  have h₂ : Latches w { w.createHub.2 with
      named := w.createHub.2.named.insert name w.hubs.size } :=
    h₁.trans (of_eq (h₁.slotted hb) rfl rfl)
  rw [he]
  exact h₂.trans (modifyThread (by exact hw) (h₂.slotted hb) (.inl rfl))

end Latches

end World

variable {L : Licence} {hand hand' : List Token} {w w' : World}

theorem Effect.latches (e : Effect L hand w hand' w') (hw : w.Seated) (hb : w.Slotted) :
    Latches w w' := by
  induction e with
  | trade | holdHub => exact .of_eq hb rfl rfl
  | trans e _ ih ih' =>
    have h₁ := ih hw hb
    exact h₁.trans (ih' (e.seated hw) (h₁.slotted hb))
  | quiet hq => exact .of_quiet hb hq
  | push | frame | call | collect => exact .modifyThread hw hb (.inl rfl)
  | alloc v => exact .alloc hb v
  | retain r => exact .setCount hb fun _ => rfl
  | tables => exact .of_eq hb rfl rfl
  | register f hv => exact .register hw hb f hv
  | take hf => exact .modifyThread hw hb (.inr (.inl ⟨rfl, by simp [hf]⟩))
  | @makeHome _ v _ =>
    have h₁ : Latches v v.createHub.2 := .createHub hb
    exact h₁.trans (.modifyThread (seated_createHub.mpr hw) (h₁.slotted hb) (.inl rfl))
  | @create _ w _ h run p _ _ _ hc =>
    obtain ⟨-, -, -, id, hq⟩ := createGreenlet_ok hc
    have h₁ : Latches w (w.retain (p.getD (w.hub h).current)) := .setCount hb fun _ => rfl
    have h₂ := h₁.trans (.alloc (h₁.slotted hb)
      (.greenlet (w.newGreenlet h run (p.getD (w.hub h).current) id)))
    exact (h₂.trans (.modifyHub (h₂.slotted hb) _ _)).trans (.of_quiet (h₂.slotted hb) hq)
  | @setParent _ w _ r p _ _ _ hs =>
    obtain ⟨-, -, rfl⟩ := setParent_ok hs
    have h₁ : Latches w (w.retain p) := .setCount hb fun _ => rfl
    exact h₁.trans (.modifyGreenlet (h₁.slotted hb) _)
  | spawn steps => exact .spawnStep hw hb steps
  | fail p =>
    have h₁ := Latches.modifyThread (u := fun t => { t with
      stack := [Task.fail p].map .task ++ t.stack }) hw hb (.inl rfl)
    exact h₁.trans (.modifyThread ((seated_modifyThread _).mpr hw) (h₁.slotted hb) (.inl rfl))

/-- No motion fills a slot with anything but a new failure, or changes a failure. -/
theorem Motion.latches (m : Motion L hand w hand' w') (hw : w.Seated) (hb : w.Slotted) :
    Latches w w' := by
  induction m with
  | script e => exact e.latches hw hb
  | trade | empty | lock | names => exact .of_eq hb rfl rfl
  | trans m _ ih ih' =>
    have h₁ := ih hw hb
    exact h₁.trans (ih' (m.seated hw) (h₁.slotted hb))
  | control =>
    exact (Latches.setStack hw hb _).trans (.of_eq ((Latches.setStack hw hb _).slotted hb) rfl rfl)
  | retain | release | bury => exact .setCount hb fun _ => rfl
  | @retire _ w r =>
    have h₁ : Latches w (w.unref r) := .setCount hb fun _ => rfl
    split
    · exact h₁.trans (.modifyHub (h₁.slotted hb) _ _)
    · exact h₁
  | restore _ ho _ hv =>
    refine .modifyObject hb fun o f ho' hf => ?_
    obtain rfl := Option.some.inj (ho.symm.trans ho')
    rcases hv with rfl | ⟨name, n, he, -⟩
    · exact hf
    · rw [he] at hf
      cases hf
  | clear | greenlet => exact .modifyGreenlet hb _
  | erase r => exact .erase hb r
  | expire => exact .modifyThread hw hb (.inr (.inr rfl))
  | vacate => exact .modifyThread hw hb (.inl rfl)
  | _ => exact .modifyHub hb _ _

namespace World

/-- The slot of the thread at place `i` keeps what is in it, unless it ends. -/
structure Clings (i : Nat) (w w' : World) : Prop where
  full : ∀ r, w.pendingAt i = .full r → w'.pendingAt i = .full r ∨ w'.pendingAt i = .gone
  gone : w.pendingAt i = .gone → w'.pendingAt i = .gone

namespace Clings

variable {w w' w'' : World} {i : Nat}

theorem of_eq (h : w'.pendingAt i = w.pendingAt i) : Clings i w w' :=
  ⟨fun _ hr => .inl (h.trans hr), h.trans⟩

theorem of_threads (h : w'.threads = w.threads) : Clings i w w' := of_eq (pendingAt_congr h i)

theorem of_quiet (hq : Quiet w w') : Clings i w w' := of_eq (hq.pendingAt i)

theorem trans (h : Clings i w w') (h' : Clings i w' w'') : Clings i w w'' where
  full r hr := by
    rcases h.full r hr with hr | hg
    · exact h'.full r hr
    · exact .inr (h'.gone hg)
  gone hg := h'.gone (h.gone hg)

theorem modifyThread (hw : w.Seated) {u : Thread → Thread}
    (hu : (u w.thread).pending = w.thread.pending ∨ (u w.thread).pending = .gone ∨
      w.thread.pending = .vacant) : Clings i w (w.modifyThread u) := by
  by_cases hi : i = w.active - 1
  · subst hi
    have hp := pendingAt_modifyThread hw u (w.active - 1)
    rw [if_pos rfl] at hp
    have ha := pendingAt_active hw
    rcases hu with hu | hu | hu
    · exact of_eq (hp.trans (hu.trans ha.symm))
    · exact ⟨fun _ _ => .inr (hp.trans hu), fun _ => hp.trans hu⟩
    · exact ⟨fun r hr => by simp [ha, hu] at hr, fun hg => by simp [ha, hu] at hg⟩
  · exact of_eq ((pendingAt_modifyThread hw u i).trans (if_neg hi))

theorem newHubStep (hw : w.Seated) (name : String) : Clings i w (w.newHubStep name) := by
  obtain ⟨d, he⟩ := newHubStep_eq w name
  have h₁ : Clings i w { w.createHub.2 with
    named := w.createHub.2.named.insert name w.hubs.size } := of_threads rfl
  rw [he]
  exact h₁.trans (modifyThread (by exact hw) (.inl rfl))

end Clings

end World

/-- Scripts leave a pending failure where it is, unless they may take it. -/
theorem Effect.clings (e : Effect L hand w hand' w') (hw : w.Seated) (hl : ¬ L.clears) (i : Nat) :
    Clings i w w' := by
  induction e with
  | trans e _ ih ih' => exact (ih hw).trans (ih' (e.seated hw))
  | quiet hq => exact .of_quiet hq
  | push | frame | call | collect => exact .modifyThread hw (.inl rfl)
  | @register _ v f hv =>
    have ha : Clings i v (v.alloc (.failure f)).2 := .of_threads rfl
    exact ha.trans (.modifyThread (w := (v.alloc (.failure f)).2) hw (.inr (.inr hv)))
  | take _ hc => exact absurd hc hl
  | @makeHome _ v _ =>
    have hc : Clings i v v.createHub.2 := .of_threads rfl
    exact hc.trans (.modifyThread (seated_createHub.mpr hw) (.inl rfl))
  | create _ _ hc =>
    obtain ⟨-, -, -, id, hq⟩ := createGreenlet_ok hc
    refine Clings.trans ?_ (.of_quiet hq)
    exact .of_threads rfl
  | setParent _ _ hs =>
    obtain ⟨-, -, rfl⟩ := setParent_ok hs
    exact .of_threads rfl
  | spawn steps => exact .of_eq (pendingAt_spawnStep hw steps i)
  | @fail _ v p =>
    have hp : Clings i v (v.push [.fail p]) := .modifyThread hw (.inl rfl)
    exact hp.trans (.modifyThread ((seated_modifyThread _).mpr hw) (.inl rfl))
  | _ => exact .of_threads rfl

theorem Motion.clings (m : Motion L hand w hand' w') (hw : w.Seated) (hl : ¬ L.clears) (i : Nat) :
    Clings i w w' := by
  induction m with
  | script e => exact e.clings hw hl i
  | trans m _ ih ih' => exact (ih hw).trans (ih' (m.seated hw))
  | @control _ _ v c =>
    have hp : Clings i v (v.setStack c.stack) := .modifyThread hw (.inl rfl)
    exact hp.trans (.of_threads rfl)
  | expire => exact .modifyThread hw (.inr (.inl rfl))
  | vacate => exact .modifyThread hw (.inl rfl)
  | retire =>
    split <;> exact .of_threads rfl
  | _ => exact .of_threads rfl

end Switchyard
