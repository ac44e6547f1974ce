import Switchyard.Proofs.Facade.Closing
import Switchyard.Proofs.Facade.Still

/-!
# Accounts of stacks

A hub counts the stacks of its greenlets as they come and as they go. For each stack that was
started its books, its greenlets and the control stacks tell what became of it, and no update of the
world makes a difference to that.
-/

namespace Switchyard

open World

def Greenlet.stackOf (h : HubId) (g : Greenlet) : Nat :=
  if g.hub = h ∧ g.fiber.isSome = true then 1 else 0

def Value.stackOf (h : HubId) : Value → Nat
  | .greenlet g => g.stackOf h
  | _ => 0

def Object.stackOf (h : HubId) (o : Option Object) : Nat := (o.map fun o => o.value.stackOf h).getD 0

theorem Greenlet.stackOf_of_none {h : HubId} {g : Greenlet} (hg : g.fiber = none) :
    g.stackOf h = 0 := by
  simp [stackOf, hg]

theorem Greenlet.stackOf_congr {h : HubId} {g g' : Greenlet} (hh : g'.hub = g.hub)
    (hf : g'.fiber = g.fiber) : g'.stackOf h = g.stackOf h := by
  rw [stackOf, stackOf, hh, hf]

theorem Greenlet.stackOf_of_some {h k : HubId} {g : Greenlet} (hk : g.hub = k) (hf : g.fiber.isSome = true) :
    g.stackOf h = if k = h then 1 else 0 :=
  if_congr ⟨fun hg => hk.symm.trans hg.1, fun hh => ⟨hk.trans hh, hf⟩⟩ rfl rfl

namespace World

variable {w w' : World} {h k : HubId} {r : Ref}

/-- How many greenlets of the hub `h` have a stack. -/
def stackCount (w : World) (h : HubId) : Nat := total (Object.stackOf h) w.heap

theorem stackCount_modifyObject {o : Object} (ho : w.object? r = some o) (u : Object → Object) :
    (w.modifyObject r u).stackCount h + o.value.stackOf h = w.stackCount h + (u o).value.stackOf h :=
  total_modify (Object.stackOf h) (heap_of_object ho) (Option.map u)

theorem stackCount_modifyObject_eq {u : Object → Object}
    (hu : ∀ o, w.object? r = some o → (u o).value.stackOf h = o.value.stackOf h) :
    (w.modifyObject r u).stackCount h = w.stackCount h := by
  cases ho : w.object? r with
  | none => rw [modifyObject_none ho]
  | some o =>
    have := stackCount_modifyObject (h := h) ho u
    have := hu o ho
    omega

theorem stackCount_modifyGreenlet {g : Greenlet} (hg : w.greenlet? r = some g)
    (u : Greenlet → Greenlet) :
    (w.modifyGreenlet r u).stackCount h + g.stackOf h = w.stackCount h + (u g).stackOf h := by
  obtain ⟨n, ho⟩ := greenlet?_eq_some_iff.mp hg
  exact stackCount_modifyObject ho _

theorem stackCount_modifyGreenlet_eq {u : Greenlet → Greenlet}
    (hu : ∀ g, w.greenlet? r = some g → (u g).stackOf h = g.stackOf h) :
    (w.modifyGreenlet r u).stackCount h = w.stackCount h :=
  stackCount_modifyObject_eq fun o ho => by
    obtain ⟨n, v⟩ := o
    cases v with
    | greenlet g => exact hu g (greenlet?_eq_some_iff.mpr ⟨n, ho⟩)
    | _ => rfl

theorem stackCount_gain {g : Greenlet} (hg : w.greenlet? r = some g) (hf : g.fiber = none)
    {u : Greenlet → Greenlet} (hk : (u g).hub = k) (hu : (u g).fiber.isSome = true) :
    (w.modifyGreenlet r u).stackCount h = w.stackCount h + if k = h then 1 else 0 := by
  have hs := stackCount_modifyGreenlet (h := h) hg u
  rwa [Greenlet.stackOf_of_none hf, Greenlet.stackOf_of_some hk hu, Nat.add_zero] at hs

theorem stackCount_loss {g : Greenlet} (hg : w.greenlet? r = some g) (hk : g.hub = k)
    (hf : g.fiber.isSome = true) {u : Greenlet → Greenlet} (hu : (u g).fiber = none) :
    (w.modifyGreenlet r u).stackCount h + (if k = h then 1 else 0) = w.stackCount h := by
  have hs := stackCount_modifyGreenlet (h := h) hg u
  rwa [Greenlet.stackOf_of_none hu, Greenlet.stackOf_of_some hk hf, Nat.add_zero] at hs

theorem stackCount_alloc (v : Value) : (w.alloc v).2.stackCount h = w.stackCount h + v.stackOf h :=
  total_push (Object.stackOf h) w.heap (some ⟨1, v⟩)

theorem stackCount_erase (hr : ∀ g, w.greenlet? r = some g → g.fiber = none) :
    (w.erase r).stackCount h = w.stackCount h := by
  cases hx : w.heap[r]? with
  | none =>
    have he : w.heap.modify r (fun _ => none) = w.heap := modify_eq_self hx _
    rw [World.erase, he]
  | some x =>
    have ht := total_modify (Object.stackOf h) hx fun _ => none
    have hz : Object.stackOf h x = 0 := by
      cases x with
      | none => rfl
      | some o =>
        obtain ⟨n, v⟩ := o
        cases v with
        | greenlet g =>
          exact Greenlet.stackOf_of_none (hr g (greenlet?_eq_some_iff.mpr ⟨n, by simp [object?, hx]⟩))
        | _ => rfl
    have hn : Object.stackOf h none = 0 := rfl
    rw [hz, hn] at ht
    exact ht

theorem modifyHub_twice (u u' : Hub → Hub) :
    (w.modifyHub k u).modifyHub k u' = w.modifyHub k fun s => u' (u s) := by
  simp only [World.modifyHub, World.mk.injEq, and_true, true_and]
  apply Array.ext_getElem?
  intro i
  simp only [Array.getElem?_modify]
  split
  · rw [Option.map_map]
    rfl
  · rfl

theorem lt_of_hubLives (hl : w.hubLives k = true) : k < w.hubs.size := by
  by_contra hn
  simp [hubLives, World.hub, Array.getElem?_eq_none (Nat.le_of_not_lt hn)] at hl

end World

def Task.unwinds (h : HubId) : Task → Bool
  | released k _ => k == h
  | _ => false

theorem Task.unwinds_of_isFree {h : HubId} {t : Task} (ht : t.isFree = true) :
    t.unwinds h = false := by
  cases t <;> first | rfl | cases ht

namespace Item

/-- The releases of stacks of the hub `h` that are under way on a control stack. -/
def unwinds (h : HubId) (s : List (Item Task)) : Nat :=
  s.countP fun
    | .task t => t.unwinds h
    | .base .. => false

variable {h : HubId} (s s' : List (Item Task)) {ts : List Task}

@[simp] theorem unwinds_nil : unwinds h [] = 0 := rfl

@[simp] theorem unwinds_append : unwinds h (s ++ s') = unwinds h s + unwinds h s' :=
  List.countP_append

@[simp] theorem unwinds_reverse : unwinds h s.reverse = unwinds h s := List.countP_reverse

@[simp] theorem unwinds_task (t : Task) :
    unwinds h (.task t :: s) = unwinds h s + if t.unwinds h = true then 1 else 0 := by
  simp [unwinds, List.countP_cons]

@[simp] theorem unwinds_base (f : FiberId) (forced : Bool) :
    unwinds h (.base f forced :: s) = unwinds h s := by
  simp [unwinds]

theorem unwinds_eq_zero (ht : ∀ t ∈ ts, t.unwinds h = false) : unwinds h (ts.map .task) = 0 := by
  induction ts with
  | nil => rfl
  | cons t ts ih =>
    rw [List.map_cons, unwinds_task, ih fun u hu => ht u (List.mem_cons_of_mem t hu),
      ht t List.mem_cons_self]
    rfl

theorem unwinds_free (ht : ts.all Task.isFree = true) : unwinds h (ts.map .task) = 0 :=
  unwinds_eq_zero fun t hm => Task.unwinds_of_isFree (List.all_eq_true.mp ht t hm)

theorem unwinds_plain (ht : ts.all Task.isPlain = true) : unwinds h (ts.map .task) = 0 :=
  unwinds_free (Task.all_isFree_of_isPlain ht)

@[simp] theorem unwinds_dropArgs (a : Args Obj) : unwinds h ((Task.dropArgs a).map .task) = 0 :=
  unwinds_plain (Task.all_isPlain_dropArgs a)

@[simp] theorem unwinds_dropPayload (p : Payload) :
    unwinds h ((Task.dropPayload p).map .task) = 0 :=
  unwinds_plain (Task.all_isPlain_dropPayload p)

@[simp] theorem unwinds_dropRun (run : RunFn) : unwinds h ((Task.dropRun run).map .task) = 0 :=
  unwinds_plain (Task.all_isPlain_dropRun run)

@[simp] theorem unwinds_dropOutgoing (o : Option Outgoing) :
    unwinds h ((Task.dropOutgoing o).map .task) = 0 := by
  rcases o with _ | (⟨target, p⟩ | p) <;> simp [Task.dropOutgoing, Task.unwinds]

@[simp] theorem unwinds_dropFlow (f : Flow) : unwinds h ((Task.dropFlow f).map .task) = 0 := by
  cases f <;> simp [Task.dropFlow]

@[simp] theorem unwinds_drops (rs : List Ref) :
    unwinds h (rs.map (Item.task ∘ Task.drop)) = 0 := by
  rw [← List.map_map]
  exact unwinds_eq_zero (by simp [Task.unwinds])

@[simp] theorem unwinds_dropRun? (run : Option RunFn) :
    unwinds h (((run.map Task.dropRun).getD []).map .task) = 0 := by
  cases run <;> simp

@[simp] theorem unwinds_dropPayload? (p : Option Payload) :
    unwinds h (((p.map Task.dropPayload).getD []).map .task) = 0 := by
  cases p <;> simp

@[simp] theorem unwinds_cleanup (t : Task) : unwinds h (t.cleanup.map .task) = 0 := by
  by_cases ht : t.isDriver = true
  · obtain ⟨us, i, vs, he, hus, hvs, -⟩ := Task.cleanup_driver ht
    simp [he, unwinds_free hus, unwinds_free hvs, Task.unwinds]
  · rcases Task.cleanup_free (by simpa using ht) with hf | ⟨i, rfl⟩ | ⟨i, rfl⟩
    · exact unwinds_free hf
    · rfl
    · rfl

theorem unwinds_modifyFrameOf (u : Frame → Frame) :
    unwinds h (World.modifyFrameOf u s) = unwinds h s := by
  induction s with
  | nil => rfl
  | cons x s ih =>
    unfold World.modifyFrameOf
    split
    · rename_i he
      cases he
    · rename_i f rest he
      obtain ⟨rfl, rfl⟩ := List.cons.inj he
      rfl
    · rename_i j rest _ he
      obtain ⟨rfl, rfl⟩ := List.cons.inj he
      cases x <;> simp [ih]

/-- No stack is released above the bottom of a fiber that is not being unwound. -/
theorem unwinds_of_walk {f : FiberId} {x : Spot} (hs : Spot.walk (Spot.step f) s = some x) :
    unwinds h s = 0 := by
  induction s generalizing x with
  | nil => rfl
  | cons i s ih =>
    cases i with
    | base => cases hs
    | task t =>
      obtain ⟨y, hy, ht⟩ := Option.bind_eq_some_iff.mp hs
      have hn : t.unwinds h = false := by
        cases t with
        | released k r => cases y <;> cases ht
        | _ => rfl
      rw [unwinds_task, ih hy, hn]
      rfl

end Item

namespace Mode

variable {m m' : Mode} {i : Item Task} {s : List (Item Task)} {h : HubId}

theorem unwinding_of_step (hu : m.unwinding ≠ .none) (hi : step i m = some m') :
    m'.unwinding ≠ .none := by
  obtain ⟨g, u⟩ := m
  cases u with
  | none => exact absurd rfl hu
  | bare r =>
    cases i with
    | task t =>
      simp only [step] at hi
      split at hi
      · exact Option.some.inj hi ▸ (by simp)
      · cases hi
    | base f forced =>
      rcases of_step_base hi with ⟨-, r', he, -⟩ | ⟨-, g', r', -, rfl⟩
      · cases he
      · simp
  | off r f x =>
    cases i with
    | task t =>
      obtain ⟨y, -, rfl⟩ := Option.map_eq_some_iff.mp hi
      simp
    | base f' forced =>
      rcases of_step_base hi with ⟨-, r', he, -⟩ | ⟨-, g', r', he, -⟩ <;> cases he

theorem unwinds_le (hs : of s = some m) :
    Item.unwinds h s ≤ 1 ∧ (0 < Item.unwinds h s → m.unwinding ≠ .none) := by
  induction s generalizing m with
  | nil => simp
  | cons i s ih =>
    obtain ⟨m₀, h₀, hi⟩ := of_cons hs
    obtain ⟨hle, hpos⟩ := ih h₀
    have keep (hn : Item.unwinds h (i :: s) = Item.unwinds h s) :
        Item.unwinds h (i :: s) ≤ 1 ∧ (0 < Item.unwinds h (i :: s) → m.unwinding ≠ .none) := by
      rw [hn]
      exact ⟨hle, fun hp => unwinding_of_step (hpos hp) hi⟩
    cases i with
    | base f forced => exact keep (Item.unwinds_base ..)
    | task t =>
      by_cases ht : t.unwinds h = true
      · obtain ⟨k, r, rfl⟩ : ∃ k r, t = .released k r := by
          cases t <;> first | exact ⟨_, _, rfl⟩ | cases ht
        obtain ⟨g, rfl, -, rfl⟩ := of_step_released hi rfl
        have hz : Item.unwinds h s = 0 := by
          by_contra hn
          exact hpos (Nat.pos_of_ne_zero hn) rfl
        rw [Item.unwinds_task, hz]
        exact ⟨by split <;> simp, nofun⟩
      · exact keep (by rw [Item.unwinds_task, if_neg ht, Nat.add_zero])

end Mode

namespace World

variable {w w' : World} {h : HubId}

/-- How many stacks of the hub `h` are being released. -/
def unwindCount (w : World) (h : HubId) : Nat :=
  total (fun t : Thread => Item.unwinds h t.stack) w.threads

theorem unwindCount_modifyThread (hw : w.Seated) (u : Thread → Thread) :
    (w.modifyThread u).unwindCount h + Item.unwinds h w.thread.stack =
      w.unwindCount h + Item.unwinds h (u w.thread).stack :=
  total_modify (fun t : Thread => Item.unwinds h t.stack) hw.getElem? u

theorem unwindCount_congr (hs : ∀ i, Item.unwinds h (w'.stackAt i) = Item.unwinds h (w.stackAt i)) :
    w'.unwindCount h = w.unwindCount h := by
  have hm (v : World) (i : Nat) : (v.threads[i]?.map fun t => Item.unwinds h t.stack).getD 0 =
      Item.unwinds h (v.stackAt i) := by
    unfold stackAt
    cases v.threads[i]? <;> rfl
  exact total_congr _ _ _ _ fun i => by rw [hm, hm, hs]

theorem unwindCount_modifyThread_eq {u : Thread → Thread}
    (hu : Item.unwinds h (u w.thread).stack = Item.unwinds h w.thread.stack) :
    (w.modifyThread u).unwindCount h = w.unwindCount h := by
  cases ht : w.threads[w.active - 1]? with
  | none => rw [World.modifyThread, modify_eq_self ht]
  | some t =>
    have hm := total_modify (fun t : Thread => Item.unwinds h t.stack) ht u
    have hw : w.thread = t := by simp [World.thread, ht]
    rw [hw] at hu
    rw [hu] at hm
    exact Nat.add_right_cancel hm

/-- The stacks of greenlets of the hub `h` that have come to their end, are being released, or are
still there. -/
def accounted (w : World) (h : HubId) : Nat :=
  (w.hub h).stats.finished + (w.hub h).stats.released + (w.hub h).stats.abandoned +
    w.stackCount h + w.unwindCount h

end World

/-- What the hub has put on its list is what it has not taken off it. -/
def Hub.Drains (s : Hub) : Prop :=
  s.closed = false → s.stats.deferred = s.stats.drained + s.deferred.length

/-- Nothing comes or goes in the books of the hub. -/
structure Hub.Balanced (s s' : Hub) : Prop where
  started : s'.stats.started = s.stats.started
  finished : s'.stats.finished = s.stats.finished
  released : s'.stats.released = s.stats.released
  abandoned : s'.stats.abandoned = s.stats.abandoned
  queue : s.Drains → s'.Drains

theorem Hub.Balanced.of_eq {s s' : Hub} (hs : s'.stats = s.stats) (hc : s'.closed = s.closed)
    (hd : s'.deferred = s.deferred) : s.Balanced s' := by
  refine ⟨by rw [hs], by rw [hs], by rw [hs], by rw [hs], ?_⟩
  unfold Hub.Drains
  rw [hs, hc, hd]
  exact id

/-- From `w` to `w'` no stack of the hub `h` comes from nowhere, and none is lost. -/
structure Balanced (h : HubId) (w w' : World) : Prop where
  books : (w'.hub h).stats.started + w.accounted h = (w.hub h).stats.started + w'.accounted h
  queue : (w.hub h).Drains → (w'.hub h).Drains

namespace Balanced

variable {h k : HubId} {w w' w'' : World} {r target : Ref} {f : FiberId} {p : Payload}
  {hand hand' : List Token} {ts : List Task}

theorem trans (e : Balanced h w w') (e' : Balanced h w' w'') : Balanced h w w'' where
  books := by
    have := e.books
    have := e'.books
    omega
  queue := e'.queue ∘ e.queue

theorem after (e' : Balanced h w' w'') (e : Balanced h w w') : Balanced h w w'' := e.trans e'

theorem of_total (hh : w'.hub h = w.hub h)
    (hs : w'.stackCount h + w'.unwindCount h = w.stackCount h + w.unwindCount h) :
    Balanced h w w' where
  books := by
    rw [accounted, accounted, hh]
    omega
  queue := by rw [hh]; exact id

theorem of_hub (hh : w'.hub h = w.hub h) (hs : w'.stackCount h = w.stackCount h)
    (hu : w'.unwindCount h = w.unwindCount h) : Balanced h w w' :=
  of_total hh (by rw [hs, hu])

theorem of_eq (hh : w'.hubs = w.hubs) (hp : w'.heap = w.heap) (ht : w'.threads = w.threads) :
    Balanced h w w' :=
  of_hub (by rw [World.hub, hh, World.hub]) (by rw [stackCount, hp, stackCount])
    (by rw [unwindCount, ht, unwindCount])

theorem refl (w : World) : Balanced h w w := of_eq rfl rfl rfl

theorem of_quiet (hq : Quiet w w') : Balanced h w w' :=
  of_hub (by rw [World.hub, hq.hubs, World.hub]) (by rw [stackCount, hq.heap, stackCount])
    (unwindCount_congr fun i => by rw [hq.stackAt])

theorem modifyThread {u : Thread → Thread}
    (hu : Item.unwinds h (u w.thread).stack = Item.unwinds h w.thread.stack) :
    Balanced h w (w.modifyThread u) :=
  of_hub rfl rfl (unwindCount_modifyThread_eq hu)

theorem push (ht : Item.unwinds h (ts.map .task) = 0) : Balanced h w (w.push ts) :=
  modifyThread (by rw [Item.unwinds_append, ht, Nat.zero_add])

theorem fail (p : Panic) : Balanced h w (w.fail p) := (push rfl).trans (modifyThread rfl)

theorem setControl {c : Control Task}
    (hc : Item.unwinds h c.stack = Item.unwinds h w.thread.stack) : Balanced h w (w.setControl c) :=
  (modifyThread (u := fun t => { t with stack := c.stack }) hc).trans (of_eq rfl rfl rfl)

theorem modifyHub {u : Hub → Hub} (hu : k = h → (w.hub h).Balanced (u (w.hub h))) :
    Balanced h w (w.modifyHub k u) := by
  rcases hub_modifyHub_cases (w := w) (h := h) k u with he | ⟨hk, he⟩
  · exact of_hub he rfl rfl
  · obtain ⟨h₁, h₂, h₃, h₄, h₅⟩ := hu hk
    refine ⟨?_, by rw [he]; exact h₅⟩
    have hs : (w.modifyHub k u).stackCount h = w.stackCount h := rfl
    have hn : (w.modifyHub k u).unwindCount h = w.unwindCount h := rfl
    rw [accounted, accounted, he, h₁, h₂, h₃, h₄, hs, hn]

theorem modifyObject {u : Object → Object}
    (hu : ∀ o, w.object? r = some o → (u o).value.stackOf h = o.value.stackOf h) :
    Balanced h w (w.modifyObject r u) :=
  of_hub rfl (stackCount_modifyObject_eq hu) rfl

theorem setCount {u : Object → Object} (hu : ∀ o, (u o).value = o.value) :
    Balanced h w (w.modifyObject r u) :=
  modifyObject fun o _ => by rw [hu o]

theorem retain (r : Ref) : Balanced h w (w.retain r) := setCount fun _ => rfl

theorem modifyGreenlet {u : Greenlet → Greenlet}
    (hu : ∀ g, (u g).hub = g.hub ∧ (u g).fiber = g.fiber) : Balanced h w (w.modifyGreenlet r u) :=
  of_hub rfl (stackCount_modifyGreenlet_eq fun g _ => Greenlet.stackOf_congr (hu g).1 (hu g).2) rfl

theorem alloc {v : Value} (hv : v.stackOf h = 0) : Balanced h w (w.alloc v).2 :=
  of_hub rfl ((stackCount_alloc v).trans (by rw [hv]; rfl)) rfl

theorem createHub (w : World) : Balanced h w w.createHub.2 := by
  obtain ⟨-, id, hq⟩ := createHub_quiet w
  refine Balanced.trans ?_ (of_quiet hq)
  have h₁ : Balanced h w ((w.alloc (.greenlet (w.newMain id))).2.retain w.heap.size) :=
    .after (retain _) (alloc (Greenlet.stackOf_of_none rfl))
  refine h₁.trans ?_
  generalize hv : (w.alloc (.greenlet (w.newMain id))).2.retain w.heap.size = v
  have hhubs : v.hubs = w.hubs := hv ▸ rfl
  by_cases hh : h = w.hubs.size
  · -- a hub that is not there yet counts as one that has counted nothing
    subst hh
    constructor <;> simp [World.hub, hhubs, accounted, stackCount, unwindCount, Hub.Drains]
  · exact of_hub (by simp [World.hub, hhubs, Array.getElem?_push, hh]) rfl rfl

theorem effect (e : Effect .full hand w hand' w') : Balanced h w w' := by
  induction e with
  | trade => exact refl _
  | quiet hq => exact of_quiet hq
  | trans _ _ ih ih' => exact ih.trans ih'
  | push ts ht => exact push (Item.unwinds_plain ht)
  | @call hand hand' w i t p u _ _ hu =>
    have hn : u.unwinds h = false :=
      Task.unwinds_of_isFree (by simp [Task.isFree, Task.isPlain_of_lends hu])
    exact push (Item.unwinds_eq_zero (by
      simp only [List.forall_mem_cons]
      exact ⟨rfl, rfl, hn, (by simp)⟩))
  | collect => exact push rfl
  | frame g => exact modifyThread (Item.unwinds_modifyFrameOf _ g)
  | register f => exact (alloc rfl).trans (modifyThread rfl)
  | take => exact modifyThread rfl
  | tables => exact of_eq rfl rfl rfl
  | fail p => exact fail p
  | alloc v hv => exact alloc (by cases v <;> first | rfl | cases hv)
  | retain r => exact retain r
  | holdHub => exact modifyHub fun _ => .of_eq rfl rfl rfl
  | makeHome => exact (createHub _).trans (modifyThread rfl)
  | create _ _ hc =>
    obtain ⟨-, -, -, id, hq⟩ := createGreenlet_ok hc
    refine Balanced.trans ?_ (of_quiet hq)
    exact .after (modifyHub fun _ => .of_eq rfl rfl rfl)
      (.after (alloc (Greenlet.stackOf_of_none rfl)) (retain _))
  | setParent _ _ hs =>
    obtain ⟨-, -, rfl⟩ := setParent_ok hs
    exact (retain _).trans (modifyGreenlet fun _ => ⟨rfl, rfl⟩)
  | @spawn hand w steps =>
    have hp : Balanced h w (w.push [.join (w.threads.size + 1)]) := push rfl
    refine hp.trans (of_hub rfl rfl ?_)
    unfold World.spawnStep unwindCount
    simp only [total_push]
    rfl

theorem raise (e : SwitchError) : Balanced h w (w.raise e) :=
  have hr : Effect .full [] w [] (w.raise e) := .raise e
  effect hr

theorem deliver (p : Payload) : Balanced h w (w.deliver p) :=
  have hd : Effect .full (p.tokens ++ []) w [] (w.deliver p) := .deliver p fun _ _ => trivial
  effect hd

theorem takeControl {c : Control Task × Bool}
    (hc : Item.unwinds h c.1.stack = Item.unwinds h w.thread.stack) :
    Balanced h w (w.takeControl c) := by
  unfold World.takeControl
  dsimp only
  split
  · exact .after (fail _) (setControl hc)
  · exact setControl hc

theorem modifyStats {v : Stats → Stats}
    (hv : k = h → (w.hub h).Balanced { w.hub h with stats := v (w.hub h).stats }) :
    Balanced h w (w.modifyStats k v) :=
  modifyHub hv

theorem modifyBoth {u : Hub → Hub} {v : Stats → Stats}
    (hu : k = h → (w.hub h).Balanced { u (w.hub h) with stats := v (u (w.hub h)).stats }) :
    Balanced h w ((w.modifyHub k u).modifyStats k v) := by
  have he := modifyHub_twice (w := w) (k := k) u fun s => { s with stats := v s.stats }
  rw [World.modifyStats, he]
  exact modifyHub hu

theorem defer (k : HubId) (r : Ref) : Balanced h w (w.defer k r) := by
  unfold World.defer
  dsimp only
  refine .after (modifyBoth fun _ => ⟨rfl, rfl, rfl, rfl, fun hd hc => ?_⟩)
    (of_quiet (.write _ _))
  have := hd hc
  simp only [List.length_append, List.length_singleton]
  omega

theorem drain (k : HubId) : Balanced h w (w.drain k) := by
  unfold World.drain
  dsimp only
  split
  · exact refl w
  · have h₁ : Balanced h w ((w.modifyHub k fun s => { s with deferred := [], foreign := [] }).modifyStats
        k fun t => { t with
          deferred := t.deferred + (w.hub k).foreign.length
          drained := t.drained + ((w.hub k).deferred ++ (w.hub k).foreign).length }) := by
      refine modifyBoth fun hk => ⟨rfl, rfl, rfl, rfl, fun hd hc => ?_⟩
      have := hd hc
      subst hk
      simp only [List.length_append, List.length_nil]
      omega
    split
    · exact h₁
    · refine .after (push ?_) h₁
      refine Item.unwinds_eq_zero fun t ht => ?_
      simp only [List.mem_append, List.mem_map, List.mem_singleton] at ht
      rcases ht with ⟨r, -, rfl⟩ | rfl <;> rfl

end Balanced

namespace World

variable {w : World} {h : HubId}

theorem stackCount_abandonStack (r : Ref) (w : World) :
    (w.abandonStack r).2.stackCount h + (w.greenlet r).stackOf h = w.stackCount h ∧
      (w.abandonStack r).1 = (w.greenlet r).fiber.isSome ∧
      (w.abandonStack r).2.hubs = w.hubs ∧
      (w.abandonStack r).2.unwindCount h = w.unwindCount h ∧
      (w.abandonStack r).2.heap = (w.modifyGreenlet r fun g =>
        { g with state := .dead, fiber := none }).heap := by
  have hst : (w.modifyGreenlet r fun g => { g with state := .dead, fiber := none }).stackCount h +
      (w.greenlet r).stackOf h = w.stackCount h := by
    cases hg : w.greenlet? r with
    | none =>
      rw [stackCount_modifyGreenlet_eq (by simp [hg]), greenlet_of_none hg,
        Greenlet.stackOf_of_none rfl, Nat.add_zero]
    | some g =>
      rw [greenlet_of_some hg, stackCount_modifyGreenlet hg, Greenlet.stackOf_of_none rfl,
        Nat.add_zero]
  unfold World.abandonStack
  dsimp only
  split
  · rename_i hf
    exact ⟨hst, by rw [hf]; rfl, rfl, rfl, rfl⟩
  · rename_i p hf
    split
    · exact ⟨hst, by rw [hf]; rfl, rfl, rfl, rfl⟩
    · exact ⟨hst, by rw [hf]; rfl, rfl,
        unwindCount_modifyThread_eq (by rw [Control.stack_unshare_abandon]; rfl), rfl⟩

end World

namespace Balanced

variable {h k : HubId} {w w' : World} {r target : Ref} {f : FiberId} {p : Payload}

theorem count {a b : Nat} {u : Stats → Stats} (hh : w'.hubs = w.hubs) (hlt : k < w.hubs.size)
    (hs : w'.stackCount h + w'.unwindCount h + (if k = h then a else 0) =
      w.stackCount h + w.unwindCount h + if k = h then b else 0)
    (hu : ∀ s, (u s).started + (s.finished + s.released + s.abandoned + a) =
      s.started + ((u s).finished + (u s).released + (u s).abandoned + b) ∧
        (u s).deferred = s.deferred ∧ (u s).drained = s.drained) :
    Balanced h w (w'.modifyStats k u) := by
  have hhub (i : HubId) : w'.hub i = w.hub i := by rw [World.hub, hh, World.hub]
  have hu' : (w'.modifyStats k u).unwindCount h = w'.unwindCount h := rfl
  have hs' : (w'.modifyStats k u).stackCount h = w'.stackCount h := rfl
  by_cases hk : k = h
  · subst hk
    obtain ⟨h₁, h₂, h₃⟩ := hu (w.hub k).stats
    have he := hub_modifyHub (w := w') k k (fun s => { s with stats := u s.stats }) (hh ▸ hlt)
    rw [if_pos rfl, hhub] at he
    rw [if_pos rfl, if_pos rfl] at hs
    constructor
    · rw [accounted, accounted, hu', hs', World.modifyStats, he]
      dsimp only
      omega
    · rw [World.modifyStats, he, Hub.Drains, Hub.Drains, h₂, h₃]
      exact id
  · rw [if_neg hk, if_neg hk] at hs
    have he : (w'.modifyStats k u).hub h = w.hub h := by
      rcases hub_modifyHub_cases (w := w') (h := h) k (fun s => { s with stats := u s.stats })
        with he | ⟨he, -⟩
      · exact he.trans (hhub h)
      · exact absurd he hk
    refine ⟨?_, by rw [he]; exact id⟩
    rw [accounted, accounted, he, hu', hs']
    omega

theorem releaseHook (r : Ref) (hl : (w.greenlet r).fiber ≠ none →
    w.hubLives (w.greenlet r).hub = true) : Balanced h w (w.releaseHook r) := by
  have hkept : Balanced h w (w.modifyObject r fun o => { o with count := 1 }) := setCount fun _ => rfl
  have hforget {v : World} (k : HubId) : Balanced h v (v.forget k r) :=
    modifyHub fun _ => .of_eq rfl rfl rfl
  unfold World.releaseHook
  dsimp only
  split
  · refine .after (push rfl) ?_
    split
    · exact hforget _
    · exact refl w
  rename_i hs
  have hfib : (w.greenlet r).fiber.isSome = true := by simpa only [Bool.not_not, Greenlet.hasStack,
    Bool.not_eq_true', Bool.not_eq_false] using hs
  have hlive := hl (Option.isSome_iff_ne_none.mp hfib)
  split
  · rename_i hn
    rw [hlive] at hn
    cases hn
  split
  · refine .after (push rfl) ?_
    have h₁ : Balanced h w (World.forget (w.greenlet r).hub r (w.debug ("greenlet " ++
        (w.greenlet r).id.text ++ ": owner thread closed, abandoning stack"))) :=
      .after (hforget _) (of_quiet (.write _ _))
    obtain ⟨hst, -, hhubs, hun, -⟩ := stackCount_abandonStack (h := h) r
      (World.forget (w.greenlet r).hub r (w.debug ("greenlet " ++ (w.greenlet r).id.text ++
        ": owner thread closed, abandoning stack")))
    refine h₁.trans (count (a := 1) (b := 0) hhubs ?_ ?_ fun s => ⟨by dsimp only; omega, rfl, rfl⟩)
    · rw [World.forget, size_modifyHub]
      exact lt_of_hubLives hlive
    · rw [hun, ← Greenlet.stackOf_of_some rfl hfib, ite_self, Nat.add_right_comm]
      exact congrArg (· + _) hst
  split
  · exact .after (modifyHub fun _ => .of_eq rfl rfl rfl) (.after (of_quiet (.write _ _)) hkept)
  split
  · exact .after (push rfl) (.after (modifyHub fun _ => .of_eq rfl rfl rfl) hkept)
  · exact .after (defer _ _) hkept

theorem lastDropped (r : Ref) {v : Value} (hl : ∀ g, v = .greenlet g → w.greenlet? r = some g ∧
    (g.fiber ≠ none → w.hubLives g.hub = true)) (ho : ∀ o, w.object? r = some o → o.value = v) :
    Balanced h w (w.lastDropped r v) := by
  unfold World.lastDropped
  split
  · rename_i g
    obtain ⟨hg, hlive⟩ := hl g rfl
    split
    · exact push rfl
    · refine releaseHook r ?_
      rw [greenlet_of_some hg]
      exact hlive
  · rename_i name lives
    have h₁ : Balanced h w (w.modifyObject r fun _ => ⟨1, .phoenix name lives⟩) :=
      modifyObject fun o ho' => by rw [ho o ho']; rfl
    have h₂ := h₁.trans (of_quiet (.event "revive" [.text name, .nat lives]))
    exact .after (push (Item.unwinds_plain (Task.all_isPlain_toList_drop _)))
      (h₂.trans (of_eq rfl rfl rfl))
  · exact push rfl

theorem drop (r : Ref)
    (hl : ∀ g, w.greenlet? r = some g → g.fiber ≠ none → w.hubLives g.hub = true) :
    Balanced h w (w.drop r) := by
  unfold World.drop
  split
  · exact refl w
  rename_i o ho
  have h₁ : Balanced h w (w.modifyObject r fun o => { o with count := o.count - 1 }) :=
    setCount fun _ => rfl
  have ho' : (w.modifyObject r fun o => { o with count := o.count - 1 }).object? r =
      some { o with count := o.count - 1 } := by
    rw [object?_modifyObject, if_pos rfl, ho]
    rfl
  dsimp only
  split
  · refine h₁.trans (lastDropped r (fun g hg => ?_) fun u hu => ?_)
    · have hgr : w.greenlet? r = some g := by
        rw [World.greenlet?, ho, Option.bind_some, hg]
        rfl
      refine ⟨?_, hl g hgr⟩
      rw [World.greenlet?, ho', Option.bind_some, hg]
      rfl
    · rw [ho'] at hu
      exact Option.some.inj hu ▸ rfl
  · exact h₁

theorem destroy (r : Ref) (hf : ∀ g, w.greenlet? r = some g → g.fiber = none) :
    Balanced h w (w.destroy r) := by
  unfold World.destroy
  dsimp only
  have h₁ : Balanced h w { w with lock := (w.lock.ensure? w.active).getD w.lock } :=
    of_eq rfl rfl rfl
  split
  · exact .after (push rfl) h₁
  · exact .after (push rfl) (.after (of_quiet (.event _ _)) h₁)
  · rename_i g hv
    refine .after (push ?_) (h₁.trans (of_hub rfl (stackCount_modifyGreenlet_eq fun g hg => ?_) rfl))
    · rw [List.map_append, Item.unwinds_append,
        Item.unwinds_free (Task.all_isFree_greenletParts _)]
      rfl
    · rw [Greenlet.stackOf_of_none rfl, Greenlet.stackOf_of_none (hf g hg)]
  · exact .after (push rfl) h₁

theorem reclaim (r : Ref) (hf : ∀ g, w.greenlet? r = some g → g.fiber = none) :
    Balanced h w (w.reclaim r) :=
  .after (of_eq rfl rfl rfl) (of_hub rfl (stackCount_erase hf) rfl)

theorem leaveHub (k : HubId) : Balanced h w (w.leaveHub k) := by
  unfold World.leaveHub
  dsimp only
  split
  · exact modifyHub fun _ => .of_eq rfl rfl rfl
  · exact .after (push rfl) (modifyHub fun _ => .of_eq rfl rfl rfl)

end Balanced

namespace World

variable {w : World} {h k : HubId} {r : Ref}

theorem shutGreenlet_spec (hk : ∀ g, w.greenlet? r = some g → g.hub = k) :
    (w.shutGreenlet r).2.2.hubs = w.hubs ∧
      (w.shutGreenlet r).2.2.unwindCount h = w.unwindCount h ∧
      (w.shutGreenlet r).2.2.stackCount h +
        (if k = h ∧ (w.shutGreenlet r).1 = true then 1 else 0) = w.stackCount h ∧
      Item.unwinds h ((w.shutGreenlet r).2.1.map .task) = 0 ∧
      ∀ q g', (w.shutGreenlet r).2.2.greenlet? q = some g' →
        ∃ g, w.greenlet? q = some g ∧ g'.hub = g.hub := by
  obtain ⟨hst, hhad, hhubs, hun, hheap⟩ := stackCount_abandonStack (h := h) r w
  refine ⟨hhubs, hun, ?_, by simp [World.shutGreenlet], fun q g' hg => ?_⟩
  · have h₁ : (w.shutGreenlet r).2.2.stackCount h = (w.abandonStack r).2.stackCount h :=
      stackCount_modifyGreenlet_eq fun g _ => Greenlet.stackOf_congr rfl rfl
    have h₂ : (w.shutGreenlet r).1 = (w.greenlet r).fiber.isSome := hhad
    rw [h₁, h₂, ← hst, Greenlet.stackOf]
    congr 1
    cases hg : w.greenlet? r with
    | none => rw [greenlet_of_none hg]; simp [Greenlet.absent]
    | some g => rw [greenlet_of_some hg, hk g hg]
  · have hq : (w.shutGreenlet r).2.2.greenlet? q =
        if r = q then ((w.abandonStack r).2.greenlet? q).map fun g =>
          { g with run := none, inbox := none } else (w.abandonStack r).2.greenlet? q :=
      greenlet?_modifyGreenlet r q _
    have ha : (w.abandonStack r).2.greenlet? q = if r = q then (w.greenlet? q).map fun g =>
        { g with state := .dead, fiber := none } else w.greenlet? q := by
      rw [← greenlet?_modifyGreenlet, World.greenlet?, World.object?, hheap]
      rfl
    rw [hq, ha] at hg
    split at hg
    · obtain ⟨g₁, hg₁, rfl⟩ := Option.map_eq_some_iff.mp hg
      obtain ⟨g, hg₀, rfl⟩ := Option.map_eq_some_iff.mp hg₁
      exact ⟨g, hg₀, rfl⟩
    · exact ⟨g', hg, rfl⟩

theorem foldl_shutNext_spec (rs : List Ref) (n : Nat) (drops : List Task)
    (hk : ∀ r ∈ rs, ∀ g, w.greenlet? r = some g → g.hub = k) :
    (rs.foldl shutNext (n, drops, w)).2.2.hubs = w.hubs ∧
      (rs.foldl shutNext (n, drops, w)).2.2.unwindCount h = w.unwindCount h ∧
      (rs.foldl shutNext (n, drops, w)).2.2.stackCount h +
        (if k = h then (rs.foldl shutNext (n, drops, w)).1 else 0) =
          w.stackCount h + (if k = h then n else 0) ∧
      Item.unwinds h ((rs.foldl shutNext (n, drops, w)).2.1.map .task) =
        Item.unwinds h (drops.map .task) := by
  induction rs generalizing n drops w with
  | nil => exact ⟨rfl, rfl, rfl, rfl⟩
  | cons r rs ih =>
    obtain ⟨hhubs, hun, hst, hdr, hgr⟩ := shutGreenlet_spec (h := h) (hk r List.mem_cons_self)
    obtain ⟨hhubs', hun', hst', hdr'⟩ := ih (w := (w.shutGreenlet r).2.2)
      (if (w.shutGreenlet r).1 = true then n + 1 else n) (drops ++ (w.shutGreenlet r).2.1)
      fun q hq g' hg' => by
        obtain ⟨g, hg, he⟩ := hgr q g' hg'
        exact he.trans (hk q (List.mem_cons_of_mem r hq) g hg)
    refine ⟨hhubs'.trans hhubs, hun'.trans hun, hst'.trans ?_, hdr'.trans ?_⟩
    · rw [← hst]
      by_cases hh : k = h <;> cases (w.shutGreenlet r).1 <;> simp [hh, Nat.add_assoc, Nat.add_comm]
    · rw [List.map_append, Item.unwinds_append, hdr, Nat.add_zero]

end World

namespace Balanced

variable {h k : HubId} {w w' : World} {r target : Ref} {f : FiberId} {p : Payload}

theorem teardown (hlt : k < w.hubs.size)
    (hk : ∀ r ∈ (w.hub k).nodes, ∀ g, w.greenlet? r = some g → g.hub = k) :
    Balanced h w (w.teardown k) := by
  unfold World.teardown
  dsimp only
  split
  · exact refl w
  have h₁ : Balanced h w (w.modifyHub k fun s => { s with closed := true, nodes := [] }) :=
    modifyHub fun _ => ⟨rfl, rfl, rfl, rfl, fun _ hc => by cases hc⟩
  obtain ⟨hhubs, hun, hst, hdr⟩ := foldl_shutNext_spec (h := h)
    (w := w.modifyHub k fun s => { s with closed := true, nodes := [] }) (w.hub k).nodes 0 [] hk
  generalize hx : (w.hub k).nodes.foldl shutNext (0, [], w.modifyHub k fun s =>
    { s with closed := true, nodes := [] }) = x at *
  obtain ⟨n, drops, v⟩ := x
  dsimp only at hhubs hun hst hdr ⊢
  refine .after (push ?_) (h₁.trans (count (a := n) (b := 0) hhubs (by rwa [size_modifyHub]) ?_
    fun s => ⟨by dsimp only; omega, rfl, rfl⟩))
  · rw [List.map_append, Item.unwinds_append, hdr]
    rfl
  · rw [ite_self] at hst ⊢
    rw [hun, Nat.add_right_comm, hst]
    rfl

theorem teardownQueues (k : HubId) (n : Nat) (hc : (w.hub k).closed = true) :
    Balanced h w (w.teardownQueues k n) := by
  unfold World.teardownQueues
  refine .after (push ?_) (modifyHub fun hk => ⟨rfl, rfl, rfl, rfl, fun _ ho => ?_⟩)
  · simp [Task.unwinds]
  · subst hk
    rw [hc] at ho
    cases ho

theorem dropHubFields (k : HubId) (hc : (w.hub k).closed = true) :
    Balanced h w (w.dropHubFields k) := by
  unfold World.dropHubFields
  refine .after (push ?_) (modifyHub fun hk => ⟨rfl, rfl, rfl, rfl, fun _ ho => ?_⟩)
  · simp [Task.unwinds]
  · subst hk
    rw [hc] at ho
    cases ho

theorem teardownCurrent (k : HubId) (n : Nat) : Balanced h w (w.teardownCurrent k n) :=
  .after (push rfl) (.after (modifyHub fun _ => .of_eq rfl rfl rfl)
    (.after (retain _) (retain _)))

theorem teardownEnd (k : HubId) (main : Ref) (n : Nat) : Balanced h w (w.teardownEnd k main n) :=
  .after (push rfl) (.after (of_quiet (.write _ _)) (modifyGreenlet fun _ => ⟨rfl, rfl⟩))

theorem exitSlots : Balanced h w w.exitSlots := by
  unfold World.exitSlots
  dsimp only
  split
  · exact refl w
  · refine .after (push ?_) (modifyThread rfl)
    rw [List.map_append, Item.unwinds_append,
      Item.unwinds_plain (Task.all_isPlain_toList_drop _)]
    rfl
  · refine .after (push ?_) (modifyThread rfl)
    cases w.thread.home.get? <;> rfl

theorem exitThread : Balanced h w w.exitThread := by
  unfold World.exitThread
  dsimp only
  split
  · exact .after (push rfl) (of_eq rfl rfl rfl)
  · exact push rfl

theorem endHubs : Balanced h w w.endHubs := by
  unfold World.endHubs
  split
  · exact refl w
  · exact .after (push rfl) (.after (of_quiet (.event _ _)) (of_eq rfl rfl rfl))

end Balanced

end Switchyard
