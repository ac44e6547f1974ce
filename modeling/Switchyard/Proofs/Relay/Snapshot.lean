import Switchyard.Proofs.View

/-!
# Snapshots

What matters of a world in which one thread works on one hub, the log and the events apart. Each
update of the world is an update of its snapshot, so that steps can be followed one after the other,
and counted.
-/

namespace Switchyard

namespace Table

variable {α : Type}

private theorem lookup_place (name n : String) (x : α) (l : List (String × α))
    (hl : name ∉ l.map Prod.fst) :
    (place name x l).lookup n = if n = name then some x else l.lookup n := by
  induction l with
  | nil =>
    by_cases hn : n = name
    · simp [place, hn]
    · simp [place, hn, List.lookup_cons, beq_false_of_ne hn]
  | cons e rest ih =>
    obtain ⟨m, y⟩ := e
    simp only [List.map_cons, List.mem_cons, not_or] at hl
    unfold place
    split
    · by_cases hn : n = name
      · simp [hn]
      · simp [hn, List.lookup_cons, beq_false_of_ne hn]
    · rw [List.lookup_cons, ih hl.2, List.lookup_cons]
      by_cases hm : n = m
      · subst hm
        simp [Ne.symm hl.1]
      · simp [beq_false_of_ne hm]

private theorem lookup_without {name n : String} (hn : n ≠ name) (l : List (String × α)) :
    (without name l).lookup n = l.lookup n := by
  induction l with
  | nil => rfl
  | cons e rest ih =>
    obtain ⟨m, y⟩ := e
    unfold without at *
    by_cases hm : m = name
    · subst hm
      simp [ih, List.lookup_cons, beq_false_of_ne hn]
    · simp only [List.filter_cons, bne_iff_ne, ne_eq, hm, not_false_eq_true, if_true,
        List.lookup_cons, ih]

theorem find?_insert (t : Table α) (name n : String) (x : α) :
    (t.insert name x).find? n = if n = name then some x else t.find? n := by
  unfold find? insert
  rw [lookup_place _ _ _ _ (notMem_without name t.entries)]
  split
  · rfl
  · rename_i hn
    exact lookup_without hn _

end Table

/-- What is followed of a world. -/
structure Snapshot where
  stack : List (Item Task)
  lock : Lock
  fibers : Array (Fiber Task)
  hub : Hub
  object : Ref → Option Object
  size : Nat
  handles : Table Ref
  pending : Slot Ref
  ids : IdSource
  fuel : Nat
  printed : List String

namespace Snapshot

variable (s : Snapshot)

def setStack (l : List (Item Task)) : Snapshot := { s with stack := l }

def push (ts : List Task) : Snapshot := s.setStack (ts.map .task ++ s.stack)

def setHub (hub : Hub) : Snapshot := { s with hub }

def setFibers (fibers : Array (Fiber Task)) : Snapshot := { s with fibers }

def setObject (r : Ref) (o : Object) : Snapshot :=
  { s with object := Function.update s.object r (some o) }

def alloc (v : Value) : Snapshot :=
  { s with object := Function.update s.object s.size (some ⟨1, v⟩), size := s.size + 1 }

def setPending (pending : Slot Ref) : Snapshot := { s with pending }

def setLock (lock : Lock) : Snapshot := { s with lock }

@[simp]
theorem object_setStack (l : List (Item Task)) : (s.setStack l).object = s.object := rfl

@[simp]
theorem object_push (ts : List Task) : (s.push ts).object = s.object := rfl

@[simp]
theorem object_setHub (hub : Hub) : (s.setHub hub).object = s.object := rfl

@[simp]
theorem object_setObject (r : Ref) (o : Object) :
    (s.setObject r o).object = Function.update s.object r (some o) := rfl

@[simp]
theorem fibers_setStack (l : List (Item Task)) : (s.setStack l).fibers = s.fibers := rfl

@[simp]
theorem fibers_push (ts : List Task) : (s.push ts).fibers = s.fibers := rfl

@[simp]
theorem fibers_setHub (hub : Hub) : (s.setHub hub).fibers = s.fibers := rfl

theorem setObject_setObject (r : Ref) (o o' : Object) :
    (s.setObject r o).setObject r o' = s.setObject r o' := by simp [setObject]

theorem setObject_self {r : Ref} {o : Object} (h : s.object r = some o) : s.setObject r o = s := by
  simp [setObject, ← h]

theorem setObject_comm {r q : Ref} (h : r ≠ q) (o o' : Object) :
    (s.setObject r o).setObject q o' = (s.setObject q o').setObject r o := by
  simp [setObject, Function.update_comm h]

theorem setObject_back {r q : Ref} (h : r ≠ q) (o o' p : Object) :
    ((s.setObject r o).setObject q p).setObject r o' = (s.setObject r o').setObject q p := by
  rw [setObject_comm _ h.symm, setObject_setObject]

end Snapshot

namespace World

/-- A thread with the hub it works on, and the run functions by name. -/
structure Site where
  thread : ThreadId
  hub : HubId
  /-- The hub of the thread, past its end or not. -/
  home : Slot HubId
  bodies : List (String × List Script.Step)
  panicked : Option Panic
  /-- Each slot of the thread is listed once at most. -/
  orderly : Bool
  /-- The numbers that pong gets are below this one. -/
  rounds : Int

/-- The thread of the site is active and works on the hub, as the snapshot has it. -/
structure Depicts (K : Site) (w : World) (s : Snapshot) : Prop where
  active : w.active = K.thread
  seated : w.Seated
  stack : w.thread.stack = s.stack
  pending : w.thread.pending = s.pending
  home : w.thread.home = K.home
  panicked : w.thread.panicked = K.panicked
  touched : K.orderly = true → w.thread.touched.Nodup
  lock : w.lock = s.lock
  fibers : w.fibers = s.fibers
  hubs : w.hubs[K.hub]? = some s.hub
  object : w.object? = s.object
  size : w.heap.size = s.size
  handles : w.handles = s.handles
  ids : w.ids = s.ids
  fuel : w.fuel = s.fuel
  bodies : w.bodies = K.bodies
  printed : w.printed = s.printed

/-- Nothing that a snapshot shows is different. -/
structure Mute (w w' : World) : Prop extends Quiet w w' where
  ids : w'.ids = w.ids
  fuel : w'.fuel = w.fuel
  bodies : w'.bodies = w.bodies
  printed : w'.printed = w.printed
  panicked : w.Seated → w'.thread.panicked = w.thread.panicked
  touched : w.Seated → w.thread.touched.Nodup → w'.thread.touched.Nodup

variable {K : Site} {w w' : World} {s s' : Snapshot} {r : Ref}
  {o : Object}

namespace Mute

theorem refl (w : World) : Mute w w := ⟨.refl w, rfl, rfl, rfl, rfl, fun _ => rfl, fun _ => id⟩

theorem trans {w'' : World} (h : Mute w w') (h' : Mute w' w'') : Mute w w'' where
  toQuiet := h.toQuiet.trans h'.toQuiet
  ids := h'.ids.trans h.ids
  fuel := h'.fuel.trans h.fuel
  bodies := h'.bodies.trans h.bodies
  printed := h'.printed.trans h.printed
  panicked hw := (h'.panicked (h.seated hw)).trans (h.panicked hw)
  touched hw ht := h'.touched (h.seated hw) (h.touched hw ht)

theorem modifyThread {f : Thread → Thread}
    (hf : ∀ t, (f t).stack = t.stack ∧ (f t).pending = t.pending ∧ (f t).home = t.home ∧
      (f t).parent = t.parent) (hp : ∀ t, (f t).panicked = t.panicked)
    (ht : w.thread.touched.Nodup → (f w.thread).touched.Nodup) : Mute w (w.modifyThread f) where
  toQuiet := .modifyThread hf
  ids := rfl
  fuel := rfl
  bodies := rfl
  printed := rfl
  panicked hw := by rw [thread_modifyThread hw, hp]
  touched hw := by rw [thread_modifyThread hw]; exact ht

theorem touch (n : SlotName) : Mute w (w.touch n) := by
  unfold World.touch
  split
  · exact refl w
  · rename_i hn
    exact modifyThread (fun _ => ⟨rfl, rfl, rfl, rfl⟩) (fun _ => rfl) fun ht =>
      List.nodup_cons.mpr ⟨by simpa using hn, ht⟩

theorem touchPending : Mute w w.touchPending := by
  unfold World.touchPending
  split
  · exact refl w
  · exact touch _

theorem touchHome : Mute w w.touchHome := by
  unfold World.touchHome
  split
  · exact refl w
  · exact touch _

theorem event (name : String) (result : List Datum) : Mute w (w.event name result) :=
  touchHome.trans ⟨⟨rfl, rfl, rfl, rfl, rfl, rfl, rfl, rfl, rfl, rfl, rfl⟩, rfl, rfl, rfl, rfl,
    fun _ => rfl, fun _ => id⟩

theorem write (level : LogLevel) (message : String) : Mute w (w.write level message) :=
  ⟨.write level message, rfl, rfl, rfl, rfl, fun _ => rfl, fun _ => id⟩

theorem panics (u : Nat → Nat) :
    Mute w (w.modifyThread fun t => { t with panics := u t.panics }) :=
  modifyThread (fun _ => ⟨rfl, rfl, rfl, rfl⟩) (fun _ => rfl) id

theorem calm : Mute w w.calm := panics (· - 1)

end Mute

namespace Depicts

theorem mute (h : Depicts K w s) (hm : Mute w w') : Depicts K w' s := by
  obtain ⟨hs, hp, hh⟩ := hm.thread h.seated
  exact ⟨hm.active.trans h.active, hm.seated h.seated, hs.trans h.stack, hp.trans h.pending,
    hh.trans h.home, (hm.panicked h.seated).trans h.panicked,
    fun ht => hm.touched h.seated (h.touched ht), hm.lock.trans h.lock, hm.fibers.trans h.fibers,
    by rw [hm.hubs, h.hubs], hm.object?.trans h.object, by rw [hm.heap, h.size],
    hm.handles.trans h.handles, hm.ids.trans h.ids, hm.fuel.trans h.fuel, hm.bodies.trans h.bodies,
    hm.printed.trans h.printed⟩

theorem hub (h : Depicts K w s) : w.hub K.hub = s.hub := by simp [World.hub, h.hubs]

theorem control (h : Depicts K w s) : w.control = ⟨s.stack, s.fibers, w.lost⟩ := by
  rw [World.control, h.stack, h.fibers]

theorem fiberD (h : Depicts K w s) {f : FiberId} {x : Fiber Task} (hf : s.fibers[f]? = some x) :
    w.fiberD f = x :=
  fiberD_of_some (by rw [h.fibers, hf])

theorem greenlet (h : Depicts K w s) {n : Nat} {g : Greenlet}
    (ho : s.object r = some ⟨n, .greenlet g⟩) : w.greenlet r = g :=
  greenlet_of_some (greenlet?_eq_some_iff.mpr ⟨n, by rw [h.object, ho]⟩)

theorem hubLives (h : Depicts K w s) (hh : 0 < s.hub.holders) : w.hubLives K.hub = true := by
  rw [World.hubLives, h.hub]
  exact decide_eq_true hh

theorem setStack (h : Depicts K w s) (l : List (Item Task)) :
    Depicts K (w.setStack l) (s.setStack l) := by
  have ht : (w.setStack l).thread = { w.thread with stack := l } :=
    thread_modifyThread h.seated fun t => { t with stack := l }
  exact { h with
    seated := (seated_modifyThread _).mpr h.seated
    stack := by rw [ht]; rfl
    pending := by rw [ht]; exact h.pending
    home := by rw [ht]; exact h.home
    panicked := by rw [ht]; exact h.panicked
    touched := by rw [ht]; exact h.touched }

theorem push (h : Depicts K w s) (ts : List Task) : Depicts K (w.push ts) (s.push ts) := by
  rw [push_eq_setStack h.seated, h.stack]
  exact h.setStack _

theorem modifyHub (h : Depicts K w s) (u : Hub → Hub) :
    Depicts K (w.modifyHub K.hub u) (s.setHub (u s.hub)) :=
  { h with hubs := by simp [World.modifyHub, Array.getElem?_modify, h.hubs, Snapshot.setHub] }

theorem modifyStats (h : Depicts K w s) (u : Stats → Stats) :
    Depicts K (w.modifyStats K.hub u) (s.setHub { s.hub with stats := u s.hub.stats }) :=
  h.modifyHub _

theorem modifyObject (h : Depicts K w s) (ho : s.object r = some o) (u : Object → Object) :
    Depicts K (w.modifyObject r u) (s.setObject r (u o)) :=
  { h with
    object := by
      funext q
      rw [object?_modifyObject, h.object]
      unfold Snapshot.setObject
      by_cases hq : r = q
      · subst hq
        simp [ho]
      · simp [hq, Function.update_of_ne (Ne.symm hq)]
    size := (Array.size_modify ..).trans h.size }

theorem retain (h : Depicts K w s) (ho : s.object r = some o) :
    Depicts K (w.retain r) (s.setObject r { o with count := o.count + 1 }) :=
  h.modifyObject ho _

theorem modifyGreenlet (h : Depicts K w s) {n : Nat} {g : Greenlet}
    (ho : s.object r = some ⟨n, .greenlet g⟩) (u : Greenlet → Greenlet) :
    Depicts K (w.modifyGreenlet r u) (s.setObject r ⟨n, .greenlet (u g)⟩) :=
  h.modifyObject ho _

theorem alloc (h : Depicts K w s) (v : Value) :
    (w.alloc v).1 = s.size ∧ Depicts K (w.alloc v).2 (s.alloc v) := by
  refine ⟨h.size, { h with object := ?_, size := ?_ }⟩
  · funext q
    rw [object?_alloc, h.object, h.size]
    unfold Snapshot.alloc
    by_cases hq : q = s.size
    · subst hq
      simp
    · simp [hq]
  · exact (Array.size_push ..).trans (congrArg (· + 1) h.size)

theorem bindHandle (h : Depicts K w s) {name : String} (hn : s.handles.find? name = none) :
    (w.bindHandle name r).1 = [] ∧
      Depicts K (w.bindHandle name r).2 { s with handles := s.handles.insert name r } := by
  refine ⟨?_, { h with handles := by rw [← h.handles]; rfl }⟩
  simp [World.bindHandle, h.handles, hn]

theorem setFuel (h : Depicts K w s) (n : Nat) :
    Depicts K { w with fuel := n } { s with fuel := n } :=
  { h with fuel := rfl }

theorem setLock (h : Depicts K w s) (m : Lock) :
    Depicts K { w with lock := m } (s.setLock m) :=
  { h with lock := rfl }

theorem nextId (h : Depicts K w s) :
    w.nextId.1 = s.ids.next.1 ∧ Depicts K w.nextId.2 { s with ids := s.ids.next.2 } :=
  ⟨by rw [← h.ids]; rfl, { h with ids := by rw [← h.ids]; rfl }⟩

theorem setPending (h : Depicts K w s) (p : Slot Ref) :
    Depicts K (w.modifyThread fun t => { t with pending := p }) (s.setPending p) := by
  have ht := thread_modifyThread h.seated fun t => { t with pending := p }
  exact { h with
    seated := (seated_modifyThread _).mpr h.seated
    stack := by rw [ht]; exact h.stack
    pending := by rw [ht]; rfl
    home := by rw [ht]; exact h.home
    panicked := by rw [ht]; exact h.panicked
    touched := by rw [ht]; exact h.touched }

theorem setControl (h : Depicts K w s) (c : Control Task) :
    Depicts K (w.setControl c) ((s.setStack c.stack).setFibers c.fibers) :=
  { h.setStack c.stack with fibers := rfl }

end Depicts

theorem run_add_run (m n : Nat) (w : World) : w.run (m + n) = (w.run m).run n := by
  induction m generalizing w with
  | zero => rw [Nat.zero_add]; rfl
  | succ m ih =>
    rw [Nat.succ_add]
    by_cases hw : w.isHalted = true
    · rw [run_of_isHalted hw, run_of_isHalted hw, run_of_isHalted hw]
    · simp only [World.run, if_neg hw]
      exact ih _

theorem next_task {t : Task} {below : List (Item Task)} (hs : w.thread.stack = .task t :: below)
    (hd : ∀ r, t ≠ .destroy r) : w.isHalted = false ∧ w.next = (w.setStack below).runTask t := by
  constructor
  · unfold World.isHalted
    rw [hs]
    cases t with
    | destroy r => exact absurd rfl (hd r)
    | _ => rfl
  · unfold World.next
    rw [hs]

theorem run_one {t : Task} {below : List (Item Task)} (hs : w.thread.stack = .task t :: below)
    (hd : ∀ r, t ≠ .destroy r) : w.run 1 = (w.setStack below).runTask t := by
  obtain ⟨hh, hn⟩ := next_task hs hd
  simp [World.run, hh, hn]

end World

structure Stats.Grows (s t : Stats) : Prop where
  switches : s.switches ≤ t.switches
  started : s.started ≤ t.started
  finished : s.finished ≤ t.finished
  released : s.released ≤ t.released
  deferred : s.deferred ≤ t.deferred
  drained : s.drained ≤ t.drained
  abandoned : s.abandoned ≤ t.abandoned

namespace Stats.Grows

theorem refl (s : Stats) : s.Grows s :=
  ⟨Nat.le_refl _, Nat.le_refl _, Nat.le_refl _, Nat.le_refl _, Nat.le_refl _, Nat.le_refl _,
    Nat.le_refl _⟩

theorem trans {s t u : Stats} (h : s.Grows t) (h' : t.Grows u) : s.Grows u where
  switches := Nat.le_trans h.switches h'.switches
  started := Nat.le_trans h.started h'.started
  finished := Nat.le_trans h.finished h'.finished
  released := Nat.le_trans h.released h'.released
  deferred := Nat.le_trans h.deferred h'.deferred
  drained := Nat.le_trans h.drained h'.drained
  abandoned := Nat.le_trans h.abandoned h'.abandoned

theorem switched (s : Stats) : s.Grows { s with switches := s.switches + 1 } :=
  { refl s with switches := Nat.le_succ _ }

theorem begun (s : Stats) : s.Grows { s with started := s.started + 1 } :=
  { refl s with started := Nat.le_succ _ }

theorem ended (s : Stats) : s.Grows { s with finished := s.finished + 1 } :=
  { refl s with finished := Nat.le_succ _ }

end Stats.Grows

/-- Pong is to hit the ball. -/
def Item.hits : Item Task → Bool
  | .task (.rally (.hit ..)) => true
  | _ => false

/-- The task need not wait for the lock, and pong does not hit the ball. -/
def Task.isPrompt : Task → Bool
  | .destroy _ | .rally (.hit ..) => false
  | _ => true

theorem Task.ne_destroy {t : Task} (h : t.isPrompt = true) (r : Ref) : t ≠ .destroy r := by
  rintro rfl
  cases h

theorem Task.hits_eq_false {t : Task} (h : t.isPrompt = true) : (Item.task t).hits = false := by
  unfold Item.hits
  split
  · rename_i he
    cases he
    cases h
  · rfl

namespace World

/-- If pong is to hit the ball, the number on it is not negative and below `n`. -/
def Fair (n : Int) (w : World) : Prop :=
  ∀ main a below, w.thread.stack = .task (.rally (.hit main a)) :: below →
    0 ≤ ((w.number? a).getD 0).toInt ∧ ((w.number? a).getD 0).toInt < n

theorem fair_of_stack {w : World} {i : Item Task} {below : List (Item Task)}
    (h : w.thread.stack = i :: below) (hi : i.hits = false) (n : Int) : w.Fair n := by
  intro main a under hs
  rw [h] at hs
  cases hs
  cases hi

/-- A world that shows the one snapshot comes to show the other within `c` steps. Until then the
counters of the hub only grow, and pong gets fair balls. -/
structure Takes (K : Site) (c : Nat) (s s' : Snapshot) : Prop where
  grows : s.hub.stats.Grows s'.hub.stats
  way : ∀ w, Depicts K w s → ∃ n ≤ c, Depicts K (w.run n) s' ∧
    ∀ m < n, (w.run m).Fair K.rounds ∧ ((w.run m).hub K.hub).stats.Grows s'.hub.stats

/-- A world that shows the one snapshot comes to show the other. -/
def Leads (K : Site) (s s' : Snapshot) : Prop := ∃ c, Takes K c s s'

namespace Takes

variable {c d : Nat}

theorem refl (s : Snapshot) : Takes K 0 s s :=
  ⟨.refl _, fun _ h => ⟨0, Nat.le_refl 0, h, fun m hm => absurd hm (Nat.not_lt_zero m)⟩⟩

theorem trans {s'' : Snapshot} {e : Nat} (h : Takes K c s s') (h' : Takes K d s' s'')
    (he : d + c = e) : Takes K e s s'' := by
  refine ⟨h.grows.trans h'.grows, fun w hw => ?_⟩
  obtain ⟨m, hmc, hm, hmid⟩ := h.way w hw
  obtain ⟨n, hnd, hn, hmid'⟩ := h'.way _ hm
  refine ⟨m + n, by omega, by rw [run_add_run]; exact hn, fun l hl => ?_⟩
  by_cases hlm : l < m
  · exact ⟨(hmid l hlm).1, (hmid l hlm).2.trans h'.grows⟩
  · obtain ⟨k, rfl⟩ : ∃ k, l = m + k := ⟨l - m, by omega⟩
    rw [run_add_run]
    exact hmid' k (by omega)

theorem within (h : Takes K c s s') (hc : c ≤ d) : Takes K d s s' := by
  refine ⟨h.grows, fun w hw => ?_⟩
  obtain ⟨n, hn, hw'⟩ := h.way w hw
  exact ⟨n, Nat.le_trans hn hc, hw'⟩

theorem ends {t : Snapshot} (h : Takes K c s s') (he : s' = t) : Takes K c s t := he ▸ h

theorem leads (h : Takes K c s s') : Leads K s s' := ⟨c, h⟩

theorem next (hg : s.hub.stats.Grows s'.hub.stats)
    (hr : ∀ w, Depicts K w s → w.Fair K.rounds ∧ w.isHalted = false ∧ Depicts K w.next s') :
    Takes K 1 s s' := by
  refine ⟨hg, fun w hw => ?_⟩
  obtain ⟨hf, hh, hn⟩ := hr w hw
  have he : w.run 1 = w.next := by simp [World.run, hh]
  refine ⟨1, Nat.le_refl 1, by rwa [he], fun m hm => ?_⟩
  obtain rfl : m = 0 := Nat.lt_one_iff.mp hm
  refine ⟨hf, ?_⟩
  change (w.hub K.hub).stats.Grows _
  rw [hw.hub]
  exact hg

theorem step {i : Item Task} {below : List (Item Task)} (hs : s.stack = i :: below)
    (hi : i.hits = false) (hg : s.hub.stats.Grows s'.hub.stats)
    (hr : ∀ w, Depicts K w s → w.isHalted = false ∧ Depicts K w.next s') : Takes K 1 s s' :=
  next hg fun w h => ⟨fair_of_stack (h.stack.trans hs) hi _, hr w h⟩

theorem task {t : Task} {below : List (Item Task)} (hs : s.stack = .task t :: below)
    (ht : t.isPrompt = true)
    (hg : s.hub.stats.Grows s'.hub.stats)
    (hr : ∀ w, Depicts K w (s.setStack below) → Depicts K (w.runTask t) s') : Takes K 1 s s' := by
  refine step hs (Task.hits_eq_false ht) hg fun w h => ?_
  obtain ⟨hh, hn⟩ := next_task (h.stack.trans hs) (Task.ne_destroy ht)
  rw [hn]
  exact ⟨hh, hr _ (h.setStack below)⟩

theorem base {f : FiberId} {below : List (Item Task)} (hs : s.stack = .base f false :: below) :
    Takes K 1 s ((s.setStack below).setFibers
      (s.fibers.modify f fun x => { x.settle with phase := .ended })) := by
  refine step hs rfl (.refl _) fun w h => ?_
  have hstk : w.thread.stack = .base f false :: below := h.stack.trans hs
  constructor
  · unfold World.isHalted
    rw [hstk]
  · have hb := h.setStack below
    have hn : w.next = (w.setStack below).setControl ((w.setStack below).control.land f false) := by
      unfold World.next
      rw [hstk]
    have hf : (w.setStack below).control.fibers = s.fibers := hb.fibers
    have hc := hb.setControl ((w.setStack below).control.land f false)
    have hst : (w.setStack below).control.stack = below := hb.stack
    unfold Control.land Control.modify at hc hn
    rw [hf, hst] at hc hn
    rw [hn]
    exact hc

end Takes

namespace Leads

theorem refl (s : Snapshot) : Leads K s s := (Takes.refl s).leads

theorem trans {s'' : Snapshot} (h : Leads K s s') (h' : Leads K s' s'') : Leads K s s'' := by
  obtain ⟨_, ht⟩ := h
  obtain ⟨_, ht'⟩ := h'
  exact (ht.trans ht' rfl).leads

theorem reach (h : Leads K s s') (hw : Depicts K w s) : ∃ n, Depicts K (w.run n) s' := by
  obtain ⟨_, ht⟩ := h
  obtain ⟨n, -, hn, -⟩ := ht.way w hw
  exact ⟨n, hn⟩

end Leads

end World

end Switchyard
