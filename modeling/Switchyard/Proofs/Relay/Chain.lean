import Switchyard.Proofs.Relay.Hops

/-!
# Chains of greenlets

Each greenlet of a chain makes the next one and switches to it. What is followed here is the way
down the chain, one greenlet at a time.
-/

namespace Switchyard

namespace Script

/-- A chain of `n` greenlets. The first `n - 1` bodies pass control on to the next greenlet, and
the last one fails with `f`. -/
structure Relay (bodies : List (String × List Step)) (n : Nat) (f : Failure) where
  name : Nat → String
  body : Nat → String
  /-- What would follow in each body. -/
  rest : Nat → List Step
  last : List Step
  plain : ∀ i < n, IsPlain (name i)
  distinct : ∀ i < n, ∀ j < n, name i = name j → i = j
  passes : ∀ i, i + 1 < n →
    bodies.lookup (body i) = some (pass (name (i + 1)) (body (i + 1)) (rest (i + 1)))
  ends : ∀ i, i + 1 = n → bodies.lookup (body i) = some last
  fails : FailsWith last f

def Relay.main {bodies : List (String × List Step)} {n : Nat} {f : Failure}
    (R : Relay bodies n f) : List Step := pass (R.name 0) (R.body 0) (R.rest 0)

end Script

/-- Code of the original stack runs on the hub, and nothing is left to be released. -/
structure Hub.IsIdle (h : Hub) : Prop where
  closed : h.closed = false
  releasing : h.releasing = false
  driving : h.driving = false
  running : h.runningFiber = false
  outgoing : h.outgoing = none
  deferred : h.deferred = []
  foreign : h.foreign = []
  held : 0 < h.holders

namespace World

section

variable {K : Site} {n : Nat} {f : Failure} (R : Script.Relay K.bodies n f) (z : Snapshot)
  (below : List (Item Task))

def seat (i : Nat) : Ref := z.size + i
def lane (i : Nat) : FiberId := z.fibers.size + i

def maker : Nat → Ref
  | 0 => z.hub.current
  | i + 1 => seat z i

def member (K : Site) (id : GreenletId) (i : Nat) (state : RunState) : Greenlet :=
  ⟨id, z.hub.thread, false, K.hub, state, some (maker z i), none, some ⟨K.thread, lane z i⟩, none⟩

/-- What lies under the steps of a body. -/
def around (i : Nat) : List (Item Task) :=
  [.task (.frame { propagates := true }), .task (.bodyEnd (.script (R.body i) [] [])),
    .task (.entry K.hub (lane z i))]

/-- What waits for the answer to a switch to the next greenlet. -/
def waiting (i : Nat) : List (Item Task) :=
  .task (.leaveHub K.hub) :: .task (.switched "switch" (seat z (i + 1)) none) ::
    .task (.steps (R.rest (i + 1))) :: around R z i

/-- The original stack waits for the first greenlet of the chain. -/
def foot : List (Item Task) :=
  .task (.leaveHub K.hub) :: .task (.switched "switch" (seat z 0) none) :: .task (.steps []) ::
    .task .mainGuard :: .task (.mainSteps (R.rest 0)) :: below

/-- What lies under the stack of a fiber. -/
def ground (i : Nat) : List (Item Task) :=
  .base (lane z i) false :: .task (.driveBack K.hub (seat z i) (lane z i)) :: foot R z below

def made (o : Object) (k : Nat) : Snapshot :=
  { z.create K.hub (.script (R.body 0) [] []) o with
    stack := .task (.steps []) :: .task .mainGuard ::
      .task (.mainSteps (.switch (R.name 0) (.built [] []) none none :: R.rest 0)) :: below
    fuel := k
    handles := z.handles.insert (R.name 0) z.size }

/-- A greenlet of the chain waits for the next one. -/
structure Waits (i : Nat) (s : Snapshot) : Prop where
  object : ∃ c id, 3 ≤ c ∧ s.object (seat z i) = some ⟨c, .greenlet (member z K id i .suspended)⟩
  fiber : s.fibers[lane z i]? = some
    { phase := .parked (.task (.resumed K.hub) :: waiting R z i), armed := true, started := true }

structure Runs (i : Nat) (s : Snapshot) : Prop where
  object : ∃ c id, 4 ≤ c ∧ s.object (seat z i) = some ⟨c, .greenlet (member z K id i .running)⟩
  fiber : s.fibers[lane z i]? = some
    { phase := .active, armed := true, started := true, handles := 2 }

/-- A greenlet of the chain is dead and has so many references at least. -/
def IsOver (least i : Nat) (s : Snapshot) : Prop :=
  ∃ c g, least ≤ c ∧ s.object (seat z i) = some ⟨c, .greenlet g⟩ ∧ g.state = .dead ∧
    g.parent = some (maker z i)

/-- The main greenlet of the hub is there and not dead. -/
def IsRooted (s : Snapshot) : Prop :=
  ∃ c g, 1 ≤ c ∧ s.object z.hub.current = some ⟨c, .greenlet g⟩ ∧ g.isMain = true ∧
    g.thread = z.hub.thread ∧ g.state.isDead = false

/-- Nothing is under way on the hub, the main greenlet is current, and what is pending is a failure
that can be destroyed. -/
structure Idle (K : Site) (z : Snapshot) : Prop extends Hub.IsIdle z.hub where
  home : K.home = .full K.hub
  rooted : IsRooted z z
  placed : z.hub.current < z.size
  pending : ∀ r, z.pending = .full r → r < z.size ∧ ∃ c f, z.object r = some ⟨c, .failure f⟩
  lock : ∃ m, z.lock.ensure? K.thread = some m ∧ m.release = z.lock

/-- The first `m` greenlets of the chain are made, and what was there before them is as it was. -/
structure Laid (m : Nat) (s : Snapshot) : Prop where
  size : z.size + m ≤ s.size
  names : ∀ i < n, s.handles.find? (R.name i) = if i < m then some (seat z i) else none
  others : ∀ q < z.size, q ≠ z.hub.current → s.object q = z.object q
  lock : s.lock = z.lock

/-- The greenlet `i` runs, the ones before it wait, and the ones after it are dead. -/
structure Stage (i m holders : Nat) (top : List (Item Task)) (out : Option Outgoing)
    (s : Snapshot) : Prop extends Laid R z m s where
  stack : s.stack = top ++ ground R z below i
  hub : ∃ nodes, s.hub = { z.hub with
    current := seat z i
    runningFiber := true
    driving := true
    outgoing := out
    nodes
    stats := { z.hub.stats with
      switches := z.hub.stats.switches + (2 * m - (i + 1))
      started := z.hub.stats.started + m
      finished := z.hub.stats.finished + (m - (i + 1)) }
    holders }
  root : IsRooted z s
  waits : ∀ j < i, Waits R z j s
  runs : Runs (K := K) z i s
  past : ∀ j, i < j → j < m → IsOver z 1 j s

/-- The greenlet `i` has just been made and entered. -/
structure Down (i : Nat) (s : Snapshot) : Prop
    extends Stage R z below i (i + 1) (z.hub.holders + (i + 1))
      (.task (.steps ((K.bodies.lookup (R.body i)).getD [])) :: around R z i) none s where
  exact_size : s.size = z.size + (i + 1)
  fibers : s.fibers.size = z.fibers.size + (i + 1)
  pending : s.pending = z.pending
  fuel : 2 * n + R.last.length ≤ s.fuel + 2 * (i + 1)

variable {R z below} {i : Nat} {s : Snapshot}

@[simp]
theorem seat_inj {j : Nat} : seat z i = seat z j ↔ i = j := Nat.add_left_cancel_iff

@[simp]
theorem lane_inj {j : Nat} : lane z i = lane z j ↔ i = j := Nat.add_left_cancel_iff

theorem seat_ne (hz : Idle K z) : z.hub.current ≠ seat z i :=
  Nat.ne_of_lt (Nat.lt_of_lt_of_le hz.placed (Nat.le_add_right ..))

def Keeps (s t : Snapshot) (r : Ref) : Prop :=
  ∀ c v, s.object r = some ⟨c, v⟩ → ∃ c', c ≤ c' ∧ t.object r = some ⟨c', v⟩

section

variable {t : Snapshot} {r : Ref} {l : Nat}

theorem Keeps.of_eq (h : t.object r = s.object r) : Keeps s t r :=
  fun c _ ho => ⟨c, Nat.le_refl c, h.trans ho⟩

theorem Waits.keep (h : Waits R z i s) (ho : Keeps s t (seat z i))
    (hf : t.fibers[lane z i]? = s.fibers[lane z i]?) : Waits R z i t := by
  obtain ⟨c, id, hc, hobj⟩ := h.object
  obtain ⟨c', hle, hobj'⟩ := ho _ _ hobj
  exact ⟨⟨c', id, Nat.le_trans hc hle, hobj'⟩, hf.trans h.fiber⟩

theorem IsOver.keep (h : IsOver z l i s) (ho : Keeps s t (seat z i)) : IsOver z l i t := by
  obtain ⟨c, g, hc, hobj, hd⟩ := h
  obtain ⟨c', hle, hobj'⟩ := ho _ _ hobj
  exact ⟨c', g, Nat.le_trans hc hle, hobj', hd⟩

theorem IsRooted.keep (h : IsRooted z s) (ho : Keeps s t z.hub.current) : IsRooted z t := by
  obtain ⟨c, g, hc, hobj, hg⟩ := h
  obtain ⟨c', hle, hobj'⟩ := ho _ _ hobj
  exact ⟨c', g, Nat.le_trans hc hle, hobj', hg⟩

end

theorem Laid.start (hfree : ∀ i < n, z.handles.find? (R.name i) = none) : Laid R z 0 z :=
  ⟨Nat.le_refl _, fun i hi => (hfree i hi).trans (if_neg (Nat.not_lt_zero i)).symm,
    fun _ _ _ => rfl, rfl⟩

theorem Laid.names_insert (h : Laid R z i s) (hi : i < n) {j : Nat} (hj : j < n) :
    (s.handles.insert (R.name i) (seat z i)).find? (R.name j) =
      if j < i + 1 then some (seat z j) else none := by
  rw [Table.find?_insert]
  by_cases hij : j = i
  · subst hij
    simp
  · have hne : R.name j ≠ R.name i := fun he => hij (R.distinct _ hj _ hi he)
    have hlt : j < i + 1 ↔ j < i := by omega
    simp only [if_neg hne, h.names _ hj, hlt]

namespace Down

theorem first (hz : Idle K z) (hn : 0 < n) (hfree : ∀ i < n, z.handles.find? (R.name i) = none)
    {c k : Nat} {g : Greenlet} (hc : 1 ≤ c)
    (hm : g.isMain = true) (ht : g.thread = z.hub.thread) (hd : g.state.isDead = false)
    (hk : 2 * n + R.last.length ≤ k + 1) :
    ∃ t, Leads K (made R z below ⟨c, .greenlet g⟩ k) t ∧ Down R z below 0 t := by
  have hlast := R.fails.length_pos
  obtain ⟨k, rfl⟩ : ∃ l, k = l + 1 := ⟨k - 1, by omega⟩
  have hne : z.hub.current ≠ z.size := Nat.ne_of_lt hz.placed
  have hfind : (z.handles.insert (R.name 0) z.size).find? (R.name 0) = some z.size := by
    rw [Table.find?_insert, if_pos rfl]
  have hl := Takes.mainSwitch hz.home (s := made R z below ⟨c, .greenlet g⟩ (k + 1)) rfl rfl
    hz.closed hz.releasing hz.driving hz.running hz.deferred hz.foreign (R.plain 0 hn) hfind
    (Function.update_self ..) rfl rfl rfl rfl rfl hne
    ((Function.update_of_ne hne ..).trans (Function.update_self ..)) (Nat.succ_le_succ hc)
  refine ⟨_, hl.leads, ?_⟩
  have hobj (o₁ o₂ o₃ o₄ : Option Object) (q : Ref) (hq : q ≠ z.hub.current) (hq' : q ≠ z.size) :
      Function.update (Function.update (Function.update (Function.update z.object z.hub.current o₁)
        z.size o₂) z.hub.current o₃) z.size o₄ q = z.object q := by
    simp [hq, hq']
  refine {
    size := Nat.le_refl _, names := ?_, others := ?_, lock := rfl, stack := rfl, hub := ?_,
    root := ?_, waits := nofun, runs := ?_, past := ?_, exact_size := rfl, fibers := ?_,
    pending := rfl, fuel := ?_ }
  · intro j hj
    exact (Laid.start hfree).names_insert hn hj
  · intro q hq hq'
    exact hobj _ _ _ _ q hq' (Nat.ne_of_lt hq)
  · refine ⟨z.size :: z.hub.nodes, ?_⟩
    simp [made, Snapshot.create, hz.outgoing, seat]
  · refine ⟨c, { g with state := g.state.giveWay }, hc, ?_, hm, ht, ?_⟩
    · exact (Function.update_of_ne hne ..).trans (Function.update_self ..)
    · rw [RunState.isDead_giveWay, hd]
  · refine ⟨⟨4, z.ids.next.1, Nat.le_refl 4, Function.update_self ..⟩, ?_⟩
    exact Array.getElem?_push_size
  · intro j hj hj'
    omega
  · simp [made, Snapshot.create]
  · change 2 * n + _ ≤ k + _
    omega

theorem next (h : Down R z below i s) (hz : Idle K z) (hi : i + 1 < n) :
    ∃ t, Leads K s t ∧ Down R z below (i + 1) t := by
  obtain ⟨nodes, hh⟩ := h.hub
  obtain ⟨c, id, hc, ho⟩ := h.runs.object
  have hcur : s.hub.current = seat z i := by rw [hh]
  have hstk := h.stack
  rw [R.passes i hi] at hstk
  have hfuel := h.fuel
  have hlast := R.fails.length_pos
  obtain ⟨k, hk⟩ : ∃ k, s.fuel = k + 2 := ⟨s.fuel - 2, by omega⟩
  have hsz : s.size = seat z (i + 1) := h.exact_size
  have hfsz : s.fibers.size = lane z (i + 1) := h.fibers
  have hne : s.hub.current ≠ s.size := by
    rw [hcur, hsz, ne_eq, seat_inj]
    exact (Nat.succ_ne_self i).symm
  have hname : s.handles.find? (R.name (i + 1)) = none := by
    rw [h.names _ hi, if_neg (Nat.lt_irrefl _)]
  have hsplit : Control.split (around R z i ++ ground R z below i) =
      some (around R z i, lane z i, false,
        .task (.driveBack K.hub s.hub.current (lane z i)) :: foot R z below) := by
    rw [hcur]
    rfl
  rw [← hcur] at ho
  have hl := Takes.descend hz.home hstk hsplit hk (by rw [hh]; exact hz.closed)
    (by rw [hh]; exact hz.releasing) (by rw [hh]) (by rw [hh]) (by rw [hh]; exact hz.deferred)
    (by rw [hh]; exact hz.foreign) ho (Nat.le_trans (by decide) hc) rfl hne h.runs.fiber rfl rfl
    (Nat.le_refl 2) (R.plain _ hi) hname
  refine ⟨_, hl.leads, ?_⟩
  have hobj (o o' : Option Object) (q : Ref) (hq : q ≠ seat z i) (hq' : q ≠ seat z (i + 1)) :
      Function.update (Function.update s.object s.hub.current o) s.size o' q = s.object q := by
    rw [hcur, hsz, Function.update_of_ne hq', Function.update_of_ne hq]
  have hleft (o o' : Option Object) :
      Function.update (Function.update s.object s.hub.current o) s.size o' (seat z i) = o := by
    rw [hcur, hsz, Function.update_of_ne (by simp), Function.update_self]
  have hmade (o o' : Option Object) :
      Function.update (Function.update s.object s.hub.current o) s.size o' (seat z (i + 1)) = o' := by
    rw [hsz, Function.update_self]
  refine {
    size := ?_, names := ?_, others := ?_, lock := h.lock, stack := ?_, hub := ?_, root := ?_,
    waits := ?_, runs := ?_, past := ?_, exact_size := ?_, fibers := ?_, pending := h.pending,
    fuel := ?_ }
  · exact Nat.succ_le_succ h.size
  · intro j hj
    rw [hsz]
    exact h.names_insert hi hj
  · intro q hq hq'
    refine (hobj _ _ q ?_ ?_).trans (h.others q hq hq')
    · exact Nat.ne_of_lt (Nat.lt_of_lt_of_le hq (Nat.le_add_right ..))
    · exact Nat.ne_of_lt (Nat.lt_of_lt_of_le hq (Nat.le_add_right ..))
  · rw [hsz, hfsz]
    rfl
  · refine ⟨s.size :: s.hub.nodes, ?_⟩
    have hs₁ : 2 * (i + 1) - (i + 1) = i + 1 := by omega
    have hs₂ : 2 * (i + 1 + 1) - (i + 1 + 1) = i + 1 + 1 := by omega
    rw [hh, hsz, hs₁, hs₂]
    simp [Nat.add_assoc]
  · exact h.root.keep (.of_eq (hobj _ _ _ (seat_ne hz) (seat_ne hz)))
  · intro j hj
    have hjl : lane z j ≠ lane z (i + 1) := by simp; omega
    rcases Nat.lt_succ_iff_lt_or_eq.mp hj with hj | rfl
    · refine (h.waits j hj).keep (.of_eq (hobj _ _ _ (by simp; omega) (by simp; omega))) ?_
      have hjl' : lane z i ≠ lane z j := by simp; omega
      simp [Array.getElem?_push, hfsz, hjl, Array.getElem?_modify, hjl']
    · refine ⟨⟨c - 1, id, by omega, hleft _ _⟩, ?_⟩
      simp only [hfsz, hsz, Array.getElem?_push, Array.size_modify, hjl, if_false,
        Array.getElem?_modify, if_true, h.runs.fiber, Option.map_some]
      rfl
  · have hborn : ({ s.newborn K.hub (.script (R.body (i + 1)) [] []) with
        state := .running, run := none, fiber := some ⟨K.thread, s.fibers.size⟩ } : Greenlet) =
          member z K s.ids.next.1 (i + 1) .running := by
      have hth : s.hub.thread = z.hub.thread := by rw [hh]
      rw [Snapshot.newborn, hth, hcur, hfsz]
      rfl
    refine ⟨⟨4, s.ids.next.1, Nat.le_refl 4, (hmade _ _).trans ?_⟩, ?_⟩
    · rw [← hborn]
    · simp only [Array.getElem?_push, Array.size_modify, hfsz, if_true]
  · intro j hj hj'
    omega
  · exact congrArg (· + 1) h.exact_size
  · simp [h.fibers, Nat.add_assoc]
  · change 2 * n + _ ≤ k + _
    omega

end Down

end

end World

end Switchyard
