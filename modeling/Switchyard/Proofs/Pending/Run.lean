import Switchyard.Proofs.Motion.Pending
import Switchyard.Proofs.Motion.Rooted
import Switchyard.Proofs.Refusals

/-!
# Slots for pending failures in a run

Each step is a sequence of motions. So along a run a slot behaves as a cell that keeps the first
failure: a step of another thread does not reach it, a step of its own thread empties it only if it
asks for the failure or delivers a value, and what has left a slot is in no slot ever after.
-/

namespace Switchyard

namespace World

variable {w w' w₀ u : World} {tr tr₀ : List World} {i j : Nat} {r : Ref} {f : Failure}

/-- The task takes the pending failure: nothing keeps it from being run, or refuses its switch. -/
def empties (t : Task) (w : World) : Bool :=
  w.clears t && match t with
    | .switch h target _ => (w.switchError? h target).isNone
    | .steps _ => w.fuel != 0
    | _ => true

/-- The next step takes the pending failure of the active thread, if there is one. -/
def clearing (w : World) : Bool :=
  match w.thread.stack with
  | .task t :: below => (w.setStack below).empties t
  | _ => false

/-- Slots refer to failures, no two of them to the same one. -/
structure Latched (w : World) : Prop where
  slotted : w.Slotted
  tells : ∀ i r, w.pendingAt i = .full r → ∃ f, w.Tells r f
  alone : ∀ i j r, w.pendingAt i = .full r → w.pendingAt j = .full r → i = j

theorem Latches.latched (h : Latches w w') (hw : w.Latched) : w'.Latched where
  slotted := h.slotted hw.slotted
  tells i r hr := by
    rcases h.held i r hr with hr | ⟨-, -, hf⟩
    · obtain ⟨f, hf⟩ := hw.tells i r hr
      exact ⟨f, h.tells r f (hw.slotted i r hr) hf⟩
    · exact hf
  alone i j r hi hj := by
    by_cases hlt : w.heap.size ≤ r
    · exact h.alone i j r hlt hi hj
    · exact hw.alone i j r ((h.held i r hi).resolve_right fun hn => hlt hn.1)
        ((h.held j r hj).resolve_right fun hn => hlt hn.1)

theorem Latched.object? (hl : w.Latched) (hk : Kept [] w) (hi : w.pendingAt i = .full r) :
    ∃ n f, 0 < n ∧ w.object? r = some ⟨n, .failure f⟩ := by
  obtain ⟨f, hf⟩ := hl.tells i r hi
  have hd : 0 < w.demand (.object r) := by
    unfold pendingAt at hi
    cases ht : w.threads[i]? with
    | none => simp [ht] at hi
    | some t =>
      simp only [ht, Option.map_some, Option.getD_some] at hi
      exact Covered.demand_of_thread ht (by simp [Thread.tokens, Slot.tokens, hi, Slot.get?])
  have hc : 0 < w.count r := hk.covers.count_pos (by simpa using hd)
  obtain ⟨o, ho⟩ := object?_of_count hc
  rw [count_of_some ho] at hc
  obtain ⟨n, v⟩ := o
  obtain rfl : v = .failure f := hf _ ho
  exact ⟨n, f, hc, ho⟩

theorem pending_push (hw : w.Seated) (ts : List Task) :
    (w.push ts).thread.pending = w.thread.pending := by
  rw [World.push, thread_modifyThread hw]

private theorem empty_push (hw : w.Seated) (h : w.thread.pending.get? = none) (ts : List Task) :
    (w.push ts).thread.pending.get? = none := by
  rwa [pending_push hw]

private theorem empty_quiet (hw : w.Seated) (hq : Quiet w w') (h : w.thread.pending.get? = none) :
    w'.thread.pending.get? = none := by
  rw [(hq.thread hw).2.1, h]

theorem empty_takePending (hw : w.Seated) (ts : List Task) :
    (w.takePending.2.push ts).thread.pending.get? = none :=
  have hc := takePending_cleared hw
  empty_push (hc.unaltered.seated hw) hc.empty ts

theorem empty_deliver (hw : w.Seated) (a : Args Obj) :
    (w.deliver (.ok a)).thread.pending.get? = none :=
  empty_takePending hw _

private theorem empty_runStep (hw : w.Seated) {st : Script.Step} (hs : st.clears = true) :
    (w.runStep st).thread.pending.get? = none := by
  have hc := takePending_cleared hw
  have hs' := hc.unaltered.seated hw
  cases st with
  | pendingTake =>
    change w.pendingTakeStep.thread.pending.get? = none
    unfold World.pendingTakeStep
    split
    · rename_i v hv
      rw [hv] at hc hs'
      exact empty_quiet hs' (.note _ _) hc.empty
    · rename_i r v hv
      rw [hv] at hc hs'
      exact empty_push hs' hc.empty _
  | pendingClear => exact empty_takePending hw _
  | pendingFetch out =>
    change (w.pendingFetchStep out).thread.pending.get? = none
    unfold World.pendingFetchStep
    simp only
    split
    · rename_i v hv
      rw [hv] at hc hs'
      exact empty_quiet (w := { v with outs := v.outs.insert out (w.outs.find? out).join }) hs'
        (.note _ _) hc.empty
    · rename_i r v hv
      rw [hv] at hc hs'
      exact empty_push (w := (v.bindOut out (some r)).2) hs' hc.empty _
  | _ => cases hs

private theorem empty_runTask (hw : w.Seated) {t : Task} (ht : w.empties t = true) :
    (w.runTask t).thread.pending.get? = none := by
  obtain ⟨hc, hn⟩ := Bool.and_eq_true_iff.mp ht
  cases t with
  | deliver p =>
    cases p with
    | ok a => exact empty_deliver hw a
    | error => cases hc
  | switch h target p =>
    cases p with
    | ok a =>
      have he : w.switchError? h target = none := Option.isNone_iff_eq_none.mp hn
      have hcur : target = (w.hub h).current := (beq_iff_eq.mp hc).symm
      change (w.switch h target (.ok a)).thread.pending.get? = none
      unfold World.switch
      rw [he]
      simp only [if_pos hcur]
      exact empty_deliver (by exact hw) a
    | error => cases hc
  | resumed h =>
    change (w.resumed h).thread.pending.get? = none
    unfold World.resumed
    rw [World.clears] at hc
    cases hp : (w.greenlet (w.hub h).current).inbox.getD (.ok .empty) with
    | ok a =>
      simp only [hp]
      exact empty_deliver (by exact hw) a
    | error f =>
      rw [hp] at hc
      cases hc
  | steps rest =>
    cases rest with
    | nil => cases hc
    | cons st rest =>
      change (w.runSteps (st :: rest)).thread.pending.get? = none
      unfold World.runSteps
      simp only
      split
      · rename_i hf
        rw [hf] at hn
        cases hn
      · rename_i fuel _
        have hw' : ({ w with fuel }.push [.steps rest]).Seated :=
          (seated_modifyThread (w := { w with fuel }) _).mpr hw
        exact empty_runStep hw' hc
  | _ => cases hc

theorem empty_next (hw : w.Seated) (hc : w.clearing = true) :
    w.next.thread.pending.get? = none := by
  unfold clearing at hc
  unfold World.next
  split at hc
  · rename_i t below ht
    rw [ht]
    exact empty_runTask ((seated_modifyThread _).mpr hw) hc
  · cases hc

def keeping : Licence := { Licence.full with clears := False }

private theorem loses_keeping (k : Token) : keeping.Loses k := by cases k <;> trivial

private theorem admits_keeping {t : Task} (h : w.clears t = false) : keeping.Admits w t where
  frames _ := .inl trivial
  clears hc := by simp [h] at hc
  links _ _ := trivial
  hubs _ _ := trivial
  greenlets _ _ := trivial
  fibers _ _ := trivial
  parts _ _ := ⟨trivial, .inl trivial, fun _ _ _ => ⟨trivial, trivial, fun _ _ => trivial⟩⟩
  heard _ := .inl trivial
  strands _ _ := trivial
  mounted := .inl loses_keeping
  inner _ := ⟨trivial, fun _ => trivial, fun _ => trivial⟩

private theorem latches_closing (hb : w.Slotted) (h : HubId) : Latches w (w.closing h) :=
  .of_eq hb rfl rfl

theorem Stride.latches {L : Licence} (hv : Stride L w) (hw : w.Seated) (hb : w.Slotted) :
    Latches w w.next := by
  cases hv with
  | yield i _ _ _ he => exact he ▸ .of_eq hb rfl rfl
  | land _ m => exact m.latches hw hb
  | task _ _ m m' =>
    have h₁ := m.latches hw hb
    exact h₁.trans (m'.latches (m.seated hw) (h₁.slotted hb))
  | @shutting h _ _ _ _ m m' =>
    have h₁ := latches_closing hb h
    have h₂ := h₁.trans (m.latches (by exact hw) (h₁.slotted hb))
    exact h₂.trans (m'.latches (m.seated (by exact hw)) (h₂.slotted hb))
  | leaving _ _ he => exact he ▸ .modifyThread hw hb (.inl rfl)
  | founding _ m he =>
    have h₁ := m.latches hw hb
    exact he ▸ h₁.trans (.newHubStep (m.seated hw) (h₁.slotted hb) _)

theorem Stride.clings {L : Licence} (hv : Stride L w) (hw : w.Seated) (hl : ¬ L.clears) (i : Nat) :
    Clings i w w.next := by
  cases hv with
  | yield j _ _ _ he => exact he ▸ .of_threads rfl
  | land _ m => exact m.clings hw hl i
  | task _ _ m m' => exact (m.clings hw hl i).trans (m'.clings (m.seated hw) hl i)
  | @shutting h _ _ _ _ m m' =>
    have h₁ : Clings i w (w.closing h) := .of_threads rfl
    exact (h₁.trans (m.clings (by exact hw) hl i)).trans (m'.clings (m.seated (by exact hw)) hl i)
  | leaving _ _ he => exact he ▸ .modifyThread hw (.inl rfl)
  | founding _ m he => exact he ▸ (m.clings hw hl i).trans (.newHubStep (m.seated hw) _)

theorem Kept.latches (hk : Kept [] w) (hw : w.Manned) (hh : w.isHalted = false)
    (hb : w.Slotted) : Latches w w.next :=
  (hk.stride hw hh (fun _ _ _ => Licence.admits_full _ _)
    fun _ _ _ _ => ⟨trivial, .inl Licence.loses_full⟩).latches hw.seated hb

private theorem clings_runTask (hw : w.Seated) {t : Task} (hc : w.clears t = true)
    (he : w.empties t = false) (i : Nat) : Clings i w (w.runTask t) := by
  have hn := (Bool.and_eq_false_iff.mp he).resolve_left (by simp [hc])
  cases t with
  | switch h target p =>
    obtain ⟨e, hs⟩ := Option.isSome_iff_exists.mp (by simpa using hn)
    have hr : Effect keeping [] w [] (w.raise e) := .raise e
    have hp := (hr.clings hw id i).trans
      (.modifyThread (u := fun t => { t with
        stack := (Task.dropPayload p ++ [Task.answer (.error e)]).map .task ++ t.stack })
        (hr.seated hw) (.inl rfl))
    change Clings i w (w.switch h target p)
    unfold World.switch
    rw [hs]
    exact hp
  | steps rest =>
    cases rest with
    | nil => cases hc
    | cons st rest =>
      change Clings i w (w.runSteps (st :: rest))
      unfold World.runSteps
      have hf : w.fuel = 0 := by simpa using hn
      simp only [hf]
      exact .modifyThread hw (.inl rfl)
  | _ => cases hn

private theorem Kept.clings_active (hk : Kept [] w) (hw : w.Manned) (hh : w.isHalted = false)
    (hc : w.clearing = false) (i : Nat) : Clings i w w.next := by
  by_cases hx : ∃ t below, w.thread.stack = .task t :: below ∧ (w.setStack below).clears t = true
  · obtain ⟨t, below, ht, hcl⟩ := hx
    have he : (w.setStack below).empties t = false := by simpa [clearing, ht] using hc
    have hs : Clings i w (w.setStack below) := .modifyThread hw.seated (.inl rfl)
    have hn : w.next = (w.setStack below).runTask t := by
      unfold World.next
      rw [ht]
    exact hn ▸ hs.trans (clings_runTask ((seated_modifyThread _).mpr hw.seated) hcl he i)
  have hadm : ∀ t below, w.thread.stack = .task t :: below →
      keeping.Admits (w.setStack below) t := fun t below ht =>
    admits_keeping (by simpa using fun h => hx ⟨t, below, ht, h⟩)
  exact (hk.stride hw hh hadm fun _ _ _ _ => ⟨trivial, .inl loses_keeping⟩).clings hw.seated id i

private theorem Aside.pendingAt (h : Aside i w w') (hi : i ≠ w.active - 1)
    (hn : i < w.threads.size) : i < w'.threads.size ∧ w'.pendingAt i = w.pendingAt i := by
  obtain ⟨-, t', ht', ha⟩ := h _ hi (Array.getElem?_eq_getElem hn)
  refine ⟨(Array.getElem?_eq_some_iff.mp ht').1, ?_⟩
  simp [World.pendingAt, ht', hn, ha.pending]

theorem Kept.pendingAt_next (hk : Kept [] w) (hw : w.Manned) (hh : w.isHalted = false)
    (hi : i ≠ w.active - 1) (hn : i < w.threads.size) :
    i < w.next.threads.size ∧ w.next.pendingAt i = w.pendingAt i := by
  cases hk.stride hw hh (fun _ _ _ => Licence.admits_full _ _)
    fun _ _ _ _ => ⟨trivial, .inl Licence.loses_full⟩ with
  | yield j _ _ _ he => exact he ▸ ⟨hn, rfl⟩
  | land _ m => exact (m.aside i).pendingAt hi hn
  | task _ _ m m' => exact ((m.aside i).trans (m'.aside i)).pendingAt hi hn
  | @shutting h _ _ _ _ m m' =>
    exact ((m.aside i).trans (m'.aside i)).pendingAt (w := w.closing h) hi hn
  | leaving _ _ he =>
    rw [he]
    exact (Aside.modifyThread _).pendingAt hi hn
  | founding _ m he => exact he ▸ ((m.aside i).trans (.newHubStep _)).pendingAt hi hn

/-- Only a step of its own thread that takes the pending failure empties a slot that has not come to
its end. -/
theorem Kept.clings (hk : Kept [] w) (hw : w.Manned) (hh : w.isHalted = false)
    (hc : w.active - 1 = i → w.clearing = false) : Clings i w w.next := by
  by_cases hi : i = w.active - 1
  · exact hk.clings_active hw hh (hc hi.symm) i
  · by_cases hn : i < w.threads.size
    · exact .of_eq (hk.pendingAt_next hw hh hi hn).2
    · have hv : w.pendingAt i = .vacant := by
        rw [World.pendingAt, Array.getElem?_eq_none (Nat.le_of_not_lt hn)]
        rfl
      exact ⟨fun r hr => by simp [hv] at hr, fun hg => by simp [hv] at hg⟩

theorem Starts.latched (hs : w.Starts) : w.Latched := by
  obtain ⟨-, -, -, -, -, -, ts, ht⟩ := hs.bare
  have hv (i : Nat) : w.pendingAt i = .vacant := by
    unfold World.pendingAt
    rw [ht]
    rcases i with _ | i <;> rfl
  exact ⟨fun i r h => by simp [hv] at h, fun i r h => by simp [hv] at h,
    fun i j r h => by simp [hv] at h⟩

/-- A run only fills slots with new failures. -/
theorem Run.latches (hs : w₀.Starts) (h₀ : Run w₀ tr₀ u) (hu : u.Latched) (h : Run u tr w) :
    Latches u w := by
  induction h with
  | start => exact .refl hu.slotted
  | @step tr v h hw ih =>
    obtain ⟨home, hl⟩ := (h₀.append h).locked hs
    exact ih.trans (((h₀.append h).kept hs).latches hl.manned hw (ih.slotted hu.slotted))
  | yield h hi hn ih => exact ih.trans (.of_eq (ih.slotted hu.slotted) rfl rfl)

theorem Run.latched (hs : w₀.Starts) (h : Run w₀ tr w) : w.Latched :=
  (Run.latches hs .start hs.latched h).latched hs.latched

/-- Along a run in which no step of its thread takes the pending failure, a slot keeps it. -/
theorem Run.clings (hs : w₀.Starts) (h₀ : Run w₀ tr₀ u) (h : Run u tr w)
    (hc : ∀ v ∈ tr, v.active - 1 = i → v.clearing = false) : Clings i u w := by
  induction h with
  | start => exact .of_threads rfl
  | @step tr v h hw ih =>
    obtain ⟨home, hl⟩ := (h₀.append h).locked hs
    exact (ih fun x hx => hc x (List.mem_cons_of_mem _ hx)).trans
      (((h₀.append h).kept hs).clings hl.manned hw (hc _ List.mem_cons_self))
  | yield h hi hn ih => exact (ih hc).trans (.of_threads rfl)

theorem Latches.notHeld (h : Latches w w') (hr : r < w.heap.size)
    (hn : ∀ i, w.pendingAt i ≠ .full r) (i : Nat) : w'.pendingAt i ≠ .full r := fun hi =>
  hn i ((h.held i r hi).resolve_right fun hx => Nat.not_lt.mpr hx.1 hr)

end World

end Switchyard
