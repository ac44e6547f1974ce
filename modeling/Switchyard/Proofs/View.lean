import Mathlib.Logic.Relation
import Mathlib.Tactic.Common
import Switchyard.Machine

/-!
# Looking at worlds

Partial look-ups of objects and greenlets, and what the updates of a world leave alone.
-/

namespace Switchyard

theorem Item.tasks_above {s s' rest : List (Item Task)} {f : FiberId} {forced : Bool} {t u : Task}
    (h : s ++ .base f forced :: s' = .task t :: .task u :: rest) :
    ∃ s'', s = .task t :: .task u :: s'' := by
  rcases s with _ | ⟨x, _ | ⟨y, s⟩⟩
  · cases (List.cons.inj h).1
  · cases (List.cons.inj (List.cons.inj h).2).1
  · simp only [List.cons_append, List.cons.injEq] at h
    exact ⟨s, by rw [h.1, h.2.1]⟩

def Value.greenlet? : Value → Option Greenlet
  | greenlet g => some g
  | _ => none

theorem Value.greenlet?_eq_some_iff {v : Value} {g : Greenlet} :
    v.greenlet? = some g ↔ v = .greenlet g := by
  cases v <;> simp [greenlet?]

namespace World

variable {w w' w'' : World}

def greenlet? (w : World) (r : Ref) : Option Greenlet :=
  (w.object? r).bind fun o => o.value.greenlet?

theorem greenlet?_eq_some_iff {r : Ref} {g : Greenlet} :
    w.greenlet? r = some g ↔ ∃ n, w.object? r = some ⟨n, .greenlet g⟩ := by
  unfold greenlet?
  cases ho : w.object? r with
  | none => simp
  | some o =>
    obtain ⟨n, v⟩ := o
    simp [Value.greenlet?_eq_some_iff]

theorem greenlet_of_some {r : Ref} {g : Greenlet} (h : w.greenlet? r = some g) :
    w.greenlet r = g := by
  obtain ⟨n, hn⟩ := greenlet?_eq_some_iff.mp h
  simp [greenlet, valueD, hn]

theorem greenlet_of_none {r : Ref} (h : w.greenlet? r = none) : w.greenlet r = .absent := by
  unfold greenlet
  split
  · rename_i g hg
    have hs : w.greenlet? r = some g := by
      unfold valueD at hg
      cases ho : w.object? r with
      | none => simp [ho] at hg
      | some o => simp_all [greenlet?, Value.greenlet?]
    rw [h] at hs
    cases hs
  · rfl

theorem greenlet_eq (w : World) (r : Ref) : w.greenlet r = (w.greenlet? r).getD .absent := by
  cases h : w.greenlet? r with
  | none => exact greenlet_of_none h
  | some g => exact greenlet_of_some h

theorem greenlet?_of_thread {r : Ref} (h : (w.greenlet r).thread ≠ 0) :
    w.greenlet? r = some (w.greenlet r) := by
  cases hg : w.greenlet? r with
  | none => exact absurd (by rw [greenlet_of_none hg]; rfl) h
  | some g => rw [greenlet_of_some hg]

theorem hub_of_some {h : HubId} {s : Hub} (hs : w.hubs[h]? = some s) : w.hub h = s := by
  simp [hub, hs]

theorem fiberD_eq (w : World) (f : FiberId) :
    w.fiberD f = w.fibers[f]?.getD { phase := .taken } := rfl

theorem fiberD_of_some {f : FiberId} {s : Fiber Task} (hs : w.fibers[f]? = some s) :
    w.fiberD f = s := by
  simp [fiberD, Control.fiberD, control, hs]

theorem object?_of_count {r : Ref} (h : 0 < w.count r) : ∃ o, w.object? r = some o := by
  unfold count at h
  cases ho : w.object? r with
  | none => simp [ho] at h
  | some o => exact ⟨o, rfl⟩

theorem count_of_some {r : Ref} {o : Object} (h : w.object? r = some o) : w.count r = o.count := by
  simp [count, h]

/-- The active thread exists. -/
def Seated (w : World) : Prop := 0 < w.active ∧ w.active ≤ w.threads.size

theorem Seated.getElem? (h : w.Seated) : w.threads[w.active - 1]? = some w.thread := by
  have hi : w.active - 1 < w.threads.size := by grind [Seated]
  rw [thread, Array.getElem?_eq_getElem hi, Option.getD_some]

@[simp] theorem seated_modifyThread (f : Thread → Thread) :
    (w.modifyThread f).Seated ↔ w.Seated := by
  simp [Seated, modifyThread]

theorem thread_modifyThread (h : w.Seated) (f : Thread → Thread) :
    (w.modifyThread f).thread = f w.thread := by
  change ((w.threads.modify (w.active - 1) f)[w.active - 1]?).getD {} = _
  rw [Array.getElem?_modify, if_pos rfl, h.getElem?, Option.map_some, Option.getD_some]

theorem modifyThread_modifyThread (f g : Thread → Thread) :
    (w.modifyThread f).modifyThread g = w.modifyThread (g ∘ f) := by
  simp only [modifyThread, World.mk.injEq, and_true, true_and]
  refine Array.ext_getElem? fun i => ?_
  simp only [Array.getElem?_modify]
  split
  · cases w.threads[i]? <;> rfl
  · rfl

/-- The control stack of the thread at a place; threads that do not exist have an empty one. -/
def stackAt (w : World) (i : Nat) : List (Item Task) :=
  (w.threads[i]?.map Thread.stack).getD []

theorem stack_eq_stackAt (w : World) : w.thread.stack = w.stackAt (w.active - 1) := by
  unfold stackAt thread
  cases w.threads[w.active - 1]? <;> rfl

theorem thread_setStack (hw : w.Seated) (s : List (Item Task)) :
    (w.setStack s).thread = { w.thread with stack := s } :=
  thread_modifyThread hw fun t => { t with stack := s }

theorem stack_setStack (hw : w.Seated) (s : List (Item Task)) : (w.setStack s).thread.stack = s :=
  congrArg Thread.stack (thread_setStack hw s)

theorem stackAt_modifyThread (hw : w.Seated) (f : Thread → Thread) (i : Nat) :
    (w.modifyThread f).stackAt i =
      if i = w.active - 1 then (f w.thread).stack else w.stackAt i := by
  unfold stackAt modifyThread
  simp only [Array.getElem?_modify]
  by_cases h : i = w.active - 1
  · subst h
    simp [hw.getElem?]
  · simp [h, Ne.symm h]

theorem stackAt_setStack (hw : w.Seated) (s : List (Item Task)) (i : Nat) :
    (w.setStack s).stackAt i = if i = w.active - 1 then s else w.stackAt i :=
  stackAt_modifyThread hw _ i

theorem push_eq_setStack (hw : w.Seated) (ts : List Task) :
    w.push ts = w.setStack (ts.map .task ++ w.thread.stack) := by
  simp only [push, setStack, modifyThread, World.mk.injEq, and_true, true_and]
  apply Array.ext_getElem?
  intro i
  simp only [Array.getElem?_modify]
  split
  · subst_vars
    rw [hw.getElem?]
    rfl
  · rfl

theorem setControl_control (hw : w.Seated) (u : Control Task → Control Task)
    (hs : (u w.control).stack = w.thread.stack) :
    w.setControl (u w.control) =
      { w with fibers := (u w.control).fibers, lost := (u w.control).lost } := by
  simp only [setControl, modifyThread, World.mk.injEq, and_true, true_and]
  apply Array.ext_getElem?
  intro i
  simp only [Array.getElem?_modify]
  split
  · subst_vars
    rw [hw.getElem?, hs]
    rfl
  · rfl

theorem stack_setControl (hw : w.Seated) (c : Control Task) :
    (w.setControl c).thread.stack = c.stack :=
  congrArg Thread.stack (thread_modifyThread hw fun t => { t with stack := c.stack })

theorem setControl_push (c : Control Task) (ts : List Task) :
    (w.push ts).setControl c = w.setControl c := by
  simp only [World.setControl, World.push, World.modifyThread, World.mk.injEq, and_true, true_and]
  refine Array.ext_getElem? fun i => ?_
  simp only [Array.getElem?_modify]
  split
  · cases w.threads[i]? <;> rfl
  · rfl

/-- The active thread exists, and so does the one that waits for a thread. -/
structure Manned (w : World) : Prop where
  seated : w.Seated
  parents : ∀ (i : Nat) t, w.threads[i]? = some t → 0 < i →
    0 < t.parent ∧ t.parent ≤ w.threads.size

theorem Manned.of_eq (h : w.Manned) (ha : w'.active = w.active) (ht : w'.threads = w.threads) :
    w'.Manned where
  seated := by simpa [Seated, ha, ht] using h.seated
  parents := by simpa [ht] using h.parents

theorem Manned.modifyThread (h : w.Manned) {f : Thread → Thread}
    (hf : ∀ t, (f t).parent = t.parent) : (w.modifyThread f).Manned where
  seated := (seated_modifyThread f).mpr h.seated
  parents i t ht hi := by
    have hs : (w.modifyThread f).threads.size = w.threads.size := by
      simp [World.modifyThread]
    rw [hs]
    simp only [World.modifyThread, Array.getElem?_modify] at ht
    split at ht
    · obtain ⟨u, hu, rfl⟩ := Option.map_eq_some_iff.mp ht
      rw [hf u]
      exact h.parents i u hu hi
    · exact h.parents i t ht hi

section

variable {h : HubId}

theorem hub_modifyHub (k h : HubId) (f : Hub → Hub) (hh : h < w.hubs.size) :
    (w.modifyHub k f).hub h = if k = h then f (w.hub h) else w.hub h := by
  simp only [World.hub, World.modifyHub, Array.getElem?_modify]
  split <;> simp [Array.getElem?_eq_getElem hh]

theorem hub_modifyHub_of_lt (hh : h < w.hubs.size) (f : Hub → Hub) (k : HubId) :
    (w.modifyHub h f).hub k = if h = k then f (w.hub k) else w.hub k := by
  by_cases hk : h = k
  · rw [hub_modifyHub h k f (hk ▸ hh)]
  · simp only [World.hub, World.modifyHub, Array.getElem?_modify, if_neg hk]

theorem size_modifyHub (k : HubId) (u : Hub → Hub) :
    (w.modifyHub k u).hubs.size = w.hubs.size := by
  simp [World.modifyHub]

theorem hub_modifyHub_cases (k : HubId) (u : Hub → Hub) :
    (w.modifyHub k u).hub h = w.hub h ∨ k = h ∧ (w.modifyHub k u).hub h = u (w.hub h) := by
  simp only [World.hub, World.modifyHub, Array.getElem?_modify]
  cases hs : w.hubs[h]? with
  | none => exact .inl (by simp)
  | some s =>
    by_cases hk : k = h
    · exact .inr ⟨hk, by simp [hk]⟩
    · exact .inl (by simp [hk])

theorem modifyHub_congr {f g : Hub → Hub} (hfg : f (w.hub h) = g (w.hub h)) :
    w.modifyHub h f = w.modifyHub h g := by
  have : w.hubs.modify h f = w.hubs.modify h g := by
    refine Array.ext_getElem? fun i => ?_
    simp only [Array.getElem?_modify]
    split
    · rename_i hi
      subst hi
      cases hs : w.hubs[h]? with
      | none => rfl
      | some s =>
        have he : w.hub h = s := by simp [World.hub, hs]
        rw [he] at hfg
        exact congrArg some hfg
    · rfl
  simp only [World.modifyHub, this]

end

theorem object?_modifyObject (r q : Ref) (f : Object → Object) :
    (w.modifyObject r f).object? q = if r = q then (w.object? q).map f else w.object? q := by
  unfold object? modifyObject
  simp only [Array.getElem?_modify]
  split
  · cases w.heap[q]? with
    | none => rfl
    | some o => rfl
  · rfl

theorem object?_alloc (v : Value) (q : Ref) :
    (w.alloc v).2.object? q = if q = w.heap.size then some ⟨1, v⟩ else w.object? q := by
  unfold object? alloc
  simp only [Array.getElem?_push]
  split <;> rfl

theorem object?_erase (r q : Ref) :
    (w.erase r).object? q = if r = q then none else w.object? q := by
  unfold object? erase
  simp only [Array.getElem?_modify]
  split
  · cases w.heap[q]? <;> rfl
  · rfl

theorem object?_size : w.object? w.heap.size = none := by simp [object?]

theorem lt_size_of_object? {r : Ref} {o : Object} (h : w.object? r = some o) :
    r < w.heap.size := by
  by_contra hr
  rw [object?, Array.getElem?_eq_none (Nat.le_of_not_lt hr)] at h
  cases h

theorem heap_of_object {r : Ref} {o : Object} (ho : w.object? r = some o) :
    w.heap[r]? = some (some o) := by
  unfold object? at ho
  cases hh : w.heap[r]? with
  | none => simp [hh] at ho
  | some x => simpa [hh] using ho

theorem modifyObject_none {r : Ref} (ho : w.object? r = none) (f : Object → Object) :
    w.modifyObject r f = w := by
  have he : w.heap.modify r (Option.map f) = w.heap := by
    apply Array.ext_getElem?
    intro i
    rw [Array.getElem?_modify]
    by_cases hi : r = i
    · subst hi
      cases hx : w.heap[r]? with
      | none => simp
      | some x =>
        obtain rfl : x = none := by simpa [object?, hx] using ho
        simp
    · simp [hi]
  rw [World.modifyObject, he]

theorem modifyObject_modifyObject (r : Ref) (f g : Object → Object) :
    (w.modifyObject r f).modifyObject r g = w.modifyObject r (g ∘ f) := by
  have : (w.heap.modify r (Option.map f)).modify r (Option.map g) =
      w.heap.modify r (Option.map (g ∘ f)) := by
    refine Array.ext_getElem? fun i => ?_
    simp only [Array.getElem?_modify]
    split
    · simp [Function.comp_def]
    · rfl
  simp only [World.modifyObject, this]

theorem modifyObject_congr {r : Ref} {f g : Object → Object}
    (hfg : ∀ o, w.object? r = some o → f o = g o) : w.modifyObject r f = w.modifyObject r g := by
  have : w.heap.modify r (Option.map f) = w.heap.modify r (Option.map g) := by
    refine Array.ext_getElem? fun i => ?_
    simp only [Array.getElem?_modify]
    split
    · subst_vars
      rcases ho : w.heap[i]? with _ | _ | o
      · rfl
      · rfl
      · simp [hfg o (by simp [World.object?, ho])]
    · rfl
  simp only [World.modifyObject, this]

theorem count_modifyObject (r q : Ref) (f : Object → Object) :
    (w.modifyObject r f).count q =
      if r = q then ((w.object? q).map fun o => (f o).count).getD 0 else w.count q := by
  simp only [count, object?_modifyObject]
  split
  · cases w.object? q <;> rfl
  · rfl

theorem count_alloc (v : Value) (q : Ref) :
    (w.alloc v).2.count q = if q = w.heap.size then 1 else w.count q := by
  simp only [count, object?_alloc]
  split <;> rfl

theorem count_modifyGreenlet (r q : Ref) (f : Greenlet → Greenlet) :
    (w.modifyGreenlet r f).count q = w.count q := by
  unfold modifyGreenlet
  rw [count_modifyObject]
  split
  · unfold count
    cases w.object? q with
    | none => rfl
    | some o =>
      obtain ⟨n, v⟩ := o
      cases v <;> rfl
  · rfl

theorem greenlet?_modifyGreenlet (r q : Ref) (f : Greenlet → Greenlet) :
    (w.modifyGreenlet r f).greenlet? q =
      if r = q then (w.greenlet? q).map f else w.greenlet? q := by
  simp only [greenlet?, modifyGreenlet, object?_modifyObject]
  split
  · cases w.object? q with
    | none => rfl
    | some o =>
      obtain ⟨n, v⟩ := o
      cases v <;> rfl
  · rfl

theorem greenlet?_retain (r q : Ref) : (w.retain r).greenlet? q = w.greenlet? q := by
  simp only [greenlet?, retain, object?_modifyObject]
  split
  · cases w.object? q <;> rfl
  · rfl

theorem count_retain (r q : Ref) :
    (w.retain r).count q =
      if r = q ∧ (w.object? q).isSome then w.count q + 1 else w.count q := by
  simp only [retain, count_modifyObject]
  by_cases h : r = q
  · cases ho : w.object? q with
    | none => simp [h, ho, count]
    | some o => simp [h, ho, count]
  · simp [h]

-- Events, log lines, fuel and the order of slots: no object, hub, fiber, stack or table changes.
/-- What the rest of a world sees of a thread. -/
structure Core where
  stack : List (Item Task)
  pending : Slot Ref
  home : Slot HubId
  parent : ThreadId

/-- Nothing that anybody owns or runs is different in `w'`. -/
structure Quiet (w w' : World) : Prop where
  lock : w'.lock = w.lock
  heap : w'.heap = w.heap
  hubs : w'.hubs = w.hubs
  fibers : w'.fibers = w.fibers
  lost : w'.lost = w.lost
  active : w'.active = w.active
  handles : w'.handles = w.handles
  objects : w'.objects = w.objects
  outs : w'.outs = w.outs
  named : w'.named = w.named
  threads : (w'.threads.map fun t => Core.mk t.stack t.pending t.home t.parent) =
    w.threads.map fun t => Core.mk t.stack t.pending t.home t.parent

namespace Quiet

theorem refl (w : World) : Quiet w w := ⟨rfl, rfl, rfl, rfl, rfl, rfl, rfl, rfl, rfl, rfl, rfl⟩

theorem trans (h : Quiet w w') (h' : Quiet w' w'') : Quiet w w'' where
  lock := h'.lock.trans h.lock
  heap := h'.heap.trans h.heap
  hubs := h'.hubs.trans h.hubs
  fibers := h'.fibers.trans h.fibers
  lost := h'.lost.trans h.lost
  active := h'.active.trans h.active
  handles := h'.handles.trans h.handles
  objects := h'.objects.trans h.objects
  outs := h'.outs.trans h.outs
  named := h'.named.trans h.named
  threads := h'.threads.trans h.threads

theorem modifyThread {f : Thread → Thread}
    (hf : ∀ t, (f t).stack = t.stack ∧ (f t).pending = t.pending ∧ (f t).home = t.home ∧
      (f t).parent = t.parent) : Quiet w (w.modifyThread f) where
  lock := rfl
  heap := rfl
  hubs := rfl
  fibers := rfl
  lost := rfl
  active := rfl
  handles := rfl
  objects := rfl
  outs := rfl
  named := rfl
  threads := by
    apply Array.ext_getElem?
    intro i
    simp only [World.modifyThread, Array.getElem?_map, Array.getElem?_modify]
    split
    · cases w.threads[i]? with
      | none => rfl
      | some t => simp [hf t]
    · rfl

theorem touch (s : SlotName) : Quiet w (w.touch s) := by
  unfold World.touch
  split
  · exact refl w
  · exact modifyThread fun _ => ⟨rfl, rfl, rfl, rfl⟩

theorem touchPending : Quiet w w.touchPending := by
  unfold World.touchPending
  split
  · exact refl w
  · exact touch _

theorem touchHome : Quiet w w.touchHome := by
  unfold World.touchHome
  split
  · exact refl w
  · exact touch _

theorem event (name : String) (result : List Datum) : Quiet w (w.event name result) :=
  touchHome.trans ⟨rfl, rfl, rfl, rfl, rfl, rfl, rfl, rfl, rfl, rfl, rfl⟩

theorem note (name : String) (result : List Datum) : Quiet w (w.note name result) := event _ _

theorem write (level : LogLevel) (message : String) : Quiet w (w.write level message) :=
  ⟨rfl, rfl, rfl, rfl, rfl, rfl, rfl, rfl, rfl, rfl, rfl⟩

theorem calm : Quiet w w.calm := modifyThread fun _ => ⟨rfl, rfl, rfl, rfl⟩

theorem getElem?_threads (h : Quiet w w') {i : Nat} {t : Thread} (ht : w.threads[i]? = some t) :
    ∃ t', w'.threads[i]? = some t' ∧ t'.stack = t.stack ∧ t'.pending = t.pending ∧
      t'.home = t.home ∧ t'.parent = t.parent := by
  have hc := congrArg (·[i]?) h.threads
  simp only [Array.getElem?_map, ht, Option.map_some] at hc
  cases ht' : w'.threads[i]? with
  | none => simp [ht'] at hc
  | some t' =>
    simp only [ht', Option.map_some, Option.some.injEq, Core.mk.injEq] at hc
    exact ⟨t', rfl, hc⟩

theorem size_threads (h : Quiet w w') : w'.threads.size = w.threads.size := by
  simpa using congrArg Array.size h.threads

theorem symm (h : Quiet w w') : Quiet w' w :=
  ⟨h.lock.symm, h.heap.symm, h.hubs.symm, h.fibers.symm, h.lost.symm, h.active.symm,
    h.handles.symm, h.objects.symm, h.outs.symm, h.named.symm, h.threads.symm⟩

theorem seated (h : Quiet w w') (hw : w.Seated) : w'.Seated := by
  simpa [Seated, h.active, h.size_threads] using hw

theorem thread (h : Quiet w w') (hw : w.Seated) :
    w'.thread.stack = w.thread.stack ∧ w'.thread.pending = w.thread.pending ∧
      w'.thread.home = w.thread.home := by
  obtain ⟨t', ht', hc⟩ := h.getElem?_threads hw.getElem?
  have := (h.seated hw).getElem?
  rw [h.active] at this
  obtain rfl : t' = w'.thread := by simpa [ht'] using this
  exact ⟨hc.1, hc.2.1, hc.2.2.1⟩

theorem stackAt (h : Quiet w w') (i : Nat) : w'.stackAt i = w.stackAt i := by
  have hc := congrArg (·[i]?) h.threads
  simp only [Array.getElem?_map] at hc
  unfold World.stackAt
  cases ht : w.threads[i]? with
  | none =>
    cases ht' : w'.threads[i]? with
    | none => rfl
    | some t' => simp [ht, ht'] at hc
  | some t =>
    obtain ⟨t', ht', hs, -⟩ := h.getElem?_threads ht
    simp [ht', hs]

theorem manned (h : Quiet w w') (hw : w.Manned) : w'.Manned where
  seated := h.seated hw.seated
  parents i t ht hi := by
    obtain ⟨u, hu, -, -, -, hp⟩ := h.symm.getElem?_threads ht
    rw [← hp, h.size_threads]
    exact hw.parents i u hu hi

theorem object? (h : Quiet w w') : w'.object? = w.object? := by
  funext r; simp [World.object?, h.heap]

theorem greenlet? (h : Quiet w w') : w'.greenlet? = w.greenlet? := by
  funext r; simp [World.greenlet?, h.object?]

end Quiet

/-- A fresh greenlet of hub `h` under `p`. -/
def newGreenlet (w : World) (h : HubId) (run : RunFn) (p : Ref) (id : GreenletId) : Greenlet :=
  ⟨id, (w.hub h).thread, false, h, .unstarted, some p, some run, none, none⟩

/-- A created greenlet is the last object of the heap, and its hub knows it. -/
theorem createGreenlet_ok {h : HubId} {run : RunFn} {p : Option Ref} {r : Ref}
    (hc : w.createGreenlet h run p = (.ok r, w')) :
    (w.hub h).closed = false ∧ r = w.heap.size ∧
      (∀ q, p = some q → (w.greenlet q).thread = (w.hub h).thread) ∧
      ∃ id, Quiet
        (((w.retain (p.getD (w.hub h).current)).alloc
          (.greenlet (w.newGreenlet h run (p.getD (w.hub h).current) id))).2.modifyHub h
            fun s => { s with nodes := r :: s.nodes }) w' := by
  unfold createGreenlet at hc
  simp only at hc
  split at hc
  · simp at hc
  · rename_i hcl
    split at hc
    · simp at hc
    · rename_i hth
      simp only [Prod.mk.injEq, Except.ok.injEq] at hc
      obtain ⟨rfl, rfl⟩ := hc
      refine ⟨by simpa using hcl, by simp [retain, modifyObject, nextId, alloc], ?_,
        w.ids.next.1, ⟨rfl, rfl, rfl, rfl, rfl, rfl, rfl, rfl, rfl, rfl, rfl⟩⟩
      rintro q rfl
      simpa using hth

theorem home_createGreenlet (hw : w.Seated) {h : HubId} {run : RunFn} {p : Option Ref} {r : Ref}
    (hc : w.createGreenlet h run p = (.ok r, w')) : w'.thread.home = w.thread.home := by
  obtain ⟨-, -, -, id, hq⟩ := createGreenlet_ok hc
  exact (hq.thread (by exact hw)).2.2

theorem setParent_ok {r p : Ref} {old : Option Ref} (hs : w.setParent r p = (.ok old, w')) :
    w.reparentError? r p = none ∧ old = w.parent r ∧
      w' = (w.retain p).modifyGreenlet r fun g => { g with parent := some p } := by
  unfold setParent at hs
  split at hs
  · simp at hs
  · rename_i he
    simp only [Prod.mk.injEq, Except.ok.injEq] at hs
    exact ⟨he, hs.1.symm, hs.2.symm⟩

theorem reparent_allowed {r p : Ref} (h : w.reparentError? r p = none) :
    (w.greenlet r).isMain = false ∧ (w.greenlet p).thread = (w.greenlet r).thread ∧ p ≠ r ∧
      w.findAncestor (· == r) w.depthLimit p = .ok none := by
  simp only [reparentError?] at h
  by_cases hm : (w.greenlet r).isMain = true
  · simp [hm] at h
  rw [if_neg hm] at h
  by_cases ht : (w.greenlet p).thread = (w.greenlet r).thread
  case neg => simp [ht] at h
  rw [if_neg (by simp [ht])] at h
  by_cases hr : p = r
  · simp [hr] at h
  rw [if_neg (by simpa using hr)] at h
  refine ⟨by simpa using hm, ht, hr, ?_⟩
  unfold ancestor ancestorWithin at h
  cases hf : w.findAncestor (· == r) w.depthLimit p with
  | error => simp [hf] at h
  | ok found =>
    cases found with
    | none => rfl
    | some q => simp [hf] at h

/-- The main greenlet that a new hub of the active thread gets. -/
def newMain (w : World) (id : GreenletId) : Greenlet :=
  ⟨id, w.active, true, w.hubs.size, .running, none, none, none, none⟩

theorem createHub_quiet (w : World) : w.createHub.1 = w.hubs.size ∧ ∃ id,
    Quiet { (w.alloc (.greenlet (w.newMain id))).2.retain w.heap.size with
      hubs := w.hubs.push { thread := w.active, main := w.heap.size, current := w.heap.size } }
      w.createHub.2 :=
  ⟨rfl, w.ids.next.1, ⟨rfl, rfl, rfl, rfl, rfl, rfl, rfl, rfl, rfl, rfl, rfl⟩⟩

theorem seated_createHub : w.createHub.2.Seated ↔ w.Seated := Iff.rfl

end World

end Switchyard
