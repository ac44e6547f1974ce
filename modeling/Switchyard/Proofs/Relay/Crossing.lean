import Switchyard.Proofs.Relay.Return
import Switchyard.Script.Transcript

/-!
# A failure crosses a chain

What a chain of greenlets does from the first step of the main script to the answer that the last
failure is to a switch: all of the chain is crossed, except that the exit marker ends at the parent
of the last greenlet.
-/

namespace Switchyard

namespace World

section

variable {K : Site} {n : Nat} {f : Failure} (R : Script.Relay K.bodies n f) (z : Snapshot)
  (below : List (Item Task))

/-- The main script gets the failure, and all the greenlets are dead. -/
structure Crossed (s : Snapshot) : Prop extends Laid R z n s where
  stack : s.stack = .task (.answer (.error (.propagated f))) ::
    .task (.switched "switch" (seat z 0) none) :: .task (.steps []) :: .task .mainGuard ::
    .task (.mainSteps (R.rest 0)) :: below
  current : s.hub.current = z.hub.current
  stats : s.hub.stats = { z.hub.stats with
    switches := z.hub.stats.switches + 2 * n
    started := z.hub.stats.started + n
    finished := z.hub.stats.finished + n }
  root : IsRooted z s
  past : ∀ i < n, IsOver z 0 i s
  pending : z.pending = .vacant → Holds f s

/-- The parent of the greenlet `i`, which is dead, gets arguments from its switch. -/
structure Stopped (i : Nat) (a : Args Obj) (s : Snapshot) : Prop where
  stack : ∃ under, s.stack = .task (.answer (.ok a)) ::
    .task (.switched "switch" (seat z i) none) :: under
  current : s.hub.current = maker z i
  names : s.handles.find? (R.name i) = some (seat z i)
  past : IsOver z 0 i s

variable {R z below} {i : Nat} {s t : Snapshot} {a : Args Obj}

theorem IsOver.weaken {l : Nat} (h : IsOver z l i s) : IsOver z 0 i s := by
  obtain ⟨c, g, -, hg⟩ := h
  exact ⟨c, g, Nat.zero_le c, hg⟩

theorem Down.reach (hz : Idle K z) (h : Down R z below 0 s) (hi : i < n) :
    ∃ t, Leads K s t ∧ Down R z below i t := by
  induction i with
  | zero => exact ⟨s, .refl s, h⟩
  | succ i ih =>
    obtain ⟨t, hl, ht⟩ := ih (Nat.lt_of_succ_lt hi)
    obtain ⟨u, hl', hu⟩ := ht.next hz hi
    exact ⟨u, hl.trans hl', hu⟩

theorem Home.crossed (h : Home R z below s) (hz : Idle K z) (hn : 0 < n)
    (hp : z.pending = .vacant → s.pending = .vacant ∨ Holds f s) :
    ∃ t, Leads K (s.receive (.error f)) t ∧ Crossed R z below t := by
  obtain ⟨nodes, hh⟩ := h.hub
  have hs : (s.receive (.error f)).stack = .task (.answer (.error (.propagated f))) ::
      .task (.leaveHub K.hub) :: .task (.switched "switch" (seat z 0) none) :: .task (.steps []) ::
      .task .mainGuard :: .task (.mainSteps (R.rest 0)) :: below := by
    change .task (.answer (.error (.propagated f))) :: s.stack = _
    rw [h.stack]
    rfl
  have hheld : 2 ≤ s.hub.holders := by
    rw [hh]
    exact Nat.succ_le_succ hz.held
  have hcur : s.hub.current = z.hub.current := by rw [hh]
  have hstats : s.hub.stats = { z.hub.stats with
      switches := z.hub.stats.switches + 2 * n
      started := z.hub.stats.started + n
      finished := z.hub.stats.finished + n } := by rw [hh]
  have hobj (q : Ref) (hq : q < s.size) : (s.register f).object q = s.object q :=
    object_register f hq
  have hseat (j : Nat) (hj : j < n) : seat z j < s.size :=
    Nat.lt_of_lt_of_le (Nat.add_lt_add_left hj _) h.size
  have hbefore (q : Ref) (hq : q < z.size) : q < s.size :=
    Nat.lt_of_lt_of_le hq (Nat.le_trans (Nat.le_add_right ..) h.size)
  refine ⟨_, (Takes.answerPastHub hs hheld).leads, {
    size := Nat.le_trans h.size (size_register f s)
    names := h.names
    others := fun q hq hq' => (hobj q (hbefore q hq)).trans (h.others q hq hq')
    lock := h.lock
    stack := rfl
    current := hcur
    stats := hstats
    root := h.root.keep (.of_eq (hobj _ (hbefore _ hz.placed)))
    past := fun j hj => ?_
    pending := fun hv => holds_register (hp hv) }⟩
  by_cases h0 : j = 0
  · subst h0
    exact h.ended.weaken.keep (.of_eq (hobj _ (hseat 0 hn)))
  · exact (h.past j (Nat.pos_of_ne_zero h0) hj).weaken.keep (.of_eq (hobj _ (hseat j hj)))

theorem Leads.received {under : List (Item Task)} {m : Lock}
    (hs : s.stack = .task (.leaveHub K.hub) :: under) (hh : 2 ≤ s.hub.holders)
    (hp : ∀ r, s.pending = .full r → ∃ c f, s.object r = some ⟨c, .failure f⟩)
    (hl : s.lock.ensure? K.thread = some m) (hm : m.release = s.lock) :
    ∃ t, Leads K (s.receive (.ok a)) t ∧ t.stack = .task (.answer (.ok a)) :: under ∧
      t.hub.current = s.hub.current ∧ t.handles = s.handles ∧
      ∀ q c g, s.object q = some ⟨c, .greenlet g⟩ → t.object q = some ⟨c, .greenlet g⟩ := by
  have hs' : (.task (.answer (.ok a)) :: s.stack : List (Item Task)) =
      .task (.answer (.ok a)) :: .task (.leaveHub K.hub) :: under := by rw [hs]
  by_cases hfull : ∃ r, s.pending = .full r
  · obtain ⟨r, hr⟩ := hfull
    obtain ⟨c, f', ho⟩ := hp r hr
    have hrec : s.receive (.ok a) = (s.push [.drop r, .answer (.ok a)]).setPending .vacant := by
      simp [Snapshot.receive, hr]
    obtain ⟨o', hd⟩ := Takes.dropFailure (K := K)
      (s := (s.push [.drop r, .answer (.ok a)]).setPending .vacant) rfl ho hl hm
    rw [hrec]
    refine ⟨_, (hd.trans (Takes.answerPastHub hs' hh) rfl).leads, rfl, rfl, rfl,
      fun q c' g hg => ?_⟩
    have hne : q ≠ r := by
      rintro rfl
      rw [ho] at hg
      cases hg
    exact (Function.update_of_ne hne ..).trans hg
  · have hrec : s.receive (.ok a) = s.push [.answer (.ok a)] := by
      unfold Snapshot.receive
      dsimp only
      split
      · exact absurd ⟨_, ‹_›⟩ hfull
      · rfl
    rw [hrec]
    have hl := Takes.answerPastHub (K := K) (s := s.push [.answer (.ok a)]) hs' hh
    exact ⟨_, hl.leads, rfl, rfl, rfl, fun _ _ _ ho => ho⟩

theorem Laid.stopped (h : Laid R z n s) (hz : Idle K z) (hi : i < n) {under : List (Item Task)}
    (hs : s.stack = .task (.leaveHub K.hub) :: .task (.switched "switch" (seat z i) none) :: under)
    (hcur : s.hub.current = maker z i) (hh : 2 ≤ s.hub.holders) (hp : Tidy s)
    (ho : IsOver z 2 i s) : ∃ t, Leads K (s.receive (.ok a)) t ∧ Stopped R z i a t := by
  have hkept (r : Ref) (hr : s.pending = .full r) : ∃ c f, s.object r = some ⟨c, .failure f⟩ := by
    obtain ⟨e, r', c, hr', hobj⟩ := hp r hr
    obtain rfl : r = r' := by
      rw [hr] at hr'
      cases hr'
      rfl
    exact ⟨c, e, hobj⟩
  obtain ⟨m, hl, hm⟩ := hz.lock
  rw [← h.lock] at hl hm
  obtain ⟨t, hlead, hst, hcur', hnames, hobj⟩ := Leads.received (a := a) hs hh hkept hl hm
  obtain ⟨c, g, -, hg, hdead⟩ := ho
  refine ⟨t, hlead, ⟨_, hst⟩, hcur'.trans hcur, ?_, c, g, Nat.zero_le c, hobj _ _ _ hg, hdead⟩
  rw [hnames, h.names i hi, if_pos hi]

theorem Tidy.keep (h : Tidy s) (hp : t.pending = s.pending) (hh : ∀ e, Holds e s → Holds e t) :
    Tidy t := fun r hr =>
  let ⟨e, he⟩ := h r (hp.symm.trans hr)
  ⟨e, hh e he⟩

theorem Handing.stopped (h : Handing R z below i (.ok a) s) (hz : Idle K z) (hi : i < n)
    (hp : Tidy s) : ∃ t, Leads K s t ∧ Stopped R z i a t := by
  cases i with
  | zero =>
    obtain ⟨t, hl, ht, hp', hhold⟩ := h.goHome hz hi
    obtain ⟨nodes, hh⟩ := ht.hub
    obtain ⟨u, hl', hu⟩ := ht.toLaid.stopped (a := a) hz hi ht.stack (by rw [hh]; rfl)
      (by rw [hh]; exact Nat.succ_le_succ hz.held) (hp.keep hp' hhold) ht.ended
    exact ⟨u, hl.trans hl', hu⟩
  | succ i =>
    obtain ⟨t, hl, ht, hov, hp', hhold⟩ := h.goOn hz hi
    obtain ⟨nodes, hh⟩ := ht.hub
    obtain ⟨u, hl', hu⟩ := ht.toLaid.stopped (a := a) hz hi ht.stack (by rw [hh]; rfl)
      (by rw [hh]; exact Nat.succ_le_succ (Nat.succ_pos _)) (hp.keep hp' hhold) hov
    exact ⟨u, hl.trans hl', hu⟩

/-- What comes of a chain whose first greenlet is made. -/
theorem chain (R : Script.Relay K.bodies n f) (below : List (Item Task)) (hz : Idle K z)
    (hn : 0 < n)
    (hfree : ∀ i < n, z.handles.find? (R.name i) = none) {k : Nat}
    (hk : 2 * n + R.last.length ≤ k + 1) {o : Object} (ho : z.object z.hub.current = some o) :
    (f.isExit = false → ∃ t, Leads K (made R z below o k) t ∧ Crossed R z below t) ∧
      (f.isExit = true → ∃ t, Leads K (made R z below o k) t ∧ Stopped R z (n - 1) .empty t) := by
  obtain ⟨c, g, hc, ho', hm, ht, hd⟩ := hz.rooted
  obtain rfl : o = ⟨c, .greenlet g⟩ := Option.some.inj (ho.symm.trans ho')
  have hlt : n - 1 < n := Nat.sub_lt hn Nat.one_pos
  obtain ⟨s₀, hl₀, hs₀⟩ : ∃ t, Leads K _ t ∧ Down R z below 0 t :=
    Down.first hz hn hfree hc hm ht hd hk
  obtain ⟨s₁, hl₁, hs₁⟩ := hs₀.reach hz hlt
  obtain ⟨s₂, hl₂, hs₂, hp₂⟩ := hs₁.fails hz (Nat.sub_add_cancel hn)
  have hl := hl₀.trans (hl₁.trans hl₂)
  refine ⟨fun hx => ?_, fun hx => ?_⟩
  · obtain ⟨s₃, hl₃, hs₃, hp₃⟩ := hs₂.toMain hx hz hlt
    obtain ⟨t, hl₄, ht⟩ := hs₃.crossed hz hn hp₃
    exact ⟨t, hl.trans (hl₃.trans hl₄), ht⟩
  · obtain ⟨s₃, hl₃, hs₃, hp₃, hhold⟩ := hs₂.finish hz hlt
    have hq : exitToEmpty (.error f) = .ok .empty := by simp [exitToEmpty, hx]
    rw [hq] at hs₃
    obtain ⟨t, hl₄, ht⟩ := hs₃.stopped hz hlt (hp₂.keep hp₃ hhold)
    exact ⟨t, hl.trans (hl₃.trans hl₄), ht⟩

end

/-- The active thread at its work on the hub `h`. -/
abbrev station (w : World) (h : HubId) (bodies : List (String × List Script.Step)) : Site where
  thread := w.active
  hub := h
  home := .full h
  bodies := bodies
  panicked := w.thread.panicked
  orderly := false
  rounds := 0

/-- What is followed of a world whose active thread works on the hub `h`. -/
def snapshot (h : HubId) (w : World) : Snapshot where
  stack := w.thread.stack
  lock := w.lock
  fibers := w.fibers
  hub := w.hub h
  object := w.object?
  size := w.heap.size
  handles := w.handles
  pending := w.thread.pending
  ids := w.ids
  fuel := w.fuel
  printed := w.printed

theorem depicts_snapshot {w : World} {h : HubId} (hw : w.Seated) (hh : w.thread.home = .full h)
    (hl : h < w.hubs.size) : Depicts (w.station h w.bodies) w (w.snapshot h) where
  active := rfl
  seated := hw
  stack := rfl
  pending := rfl
  home := hh
  panicked := rfl
  touched := nofun
  lock := rfl
  fibers := rfl
  hubs := by simp [snapshot, World.hub, hl]
  object := rfl
  size := rfl
  handles := rfl
  ids := rfl
  fuel := rfl
  bodies := rfl
  printed := rfl

theorem depicts_homeHub {w : World} (hw : w.Seated) (hh : w.thread.home = .vacant) :
    ∃ v, w.homeHub = (.ok w.hubs.size, v) ∧ Depicts (w.station w.hubs.size w.bodies) v
      { w.snapshot w.hubs.size with
        hub := { thread := w.active, main := w.heap.size, current := w.heap.size }
        object := Function.update w.object? w.heap.size
          (some ⟨2, .greenlet (w.newMain w.ids.next.1)⟩)
        size := w.heap.size + 1
        ids := w.ids.next.2 } := by
  have ht : Mute w w.touchHome := .touchHome
  obtain ⟨hst, hpe, hho⟩ := ht.thread hw
  have hseat : w.touchHome.Seated := ht.seated hw
  let v := w.touchHome.createHub.2
  have hvs : v.Seated := hseat
  have hv := thread_modifyThread (w := v) hvs fun t => { t with home := .full w.hubs.size }
  have hh' : w.touchHome.thread.home = .vacant := hho.trans hh
  have hsize : w.touchHome.hubs.size = w.hubs.size := by rw [ht.hubs]
  have he : w.homeHub =
      (.ok w.hubs.size, v.modifyThread fun t => { t with home := .full w.hubs.size }) := by
    unfold World.homeHub
    simp only [hh']
    have hi : w.touchHome.createHub.1 = w.hubs.size := hsize
    rw [hi]
  refine ⟨_, he, {
    active := ht.active
    seated := (World.seated_modifyThread _).mpr hvs
    stack := by rw [hv]; exact hst
    pending := by rw [hv]; exact hpe
    home := by rw [hv]
    panicked := by rw [hv]; exact ht.panicked hw
    touched := nofun
    lock := ht.lock
    fibers := ht.fibers
    hubs := ?_
    object := ?_
    size := ?_
    handles := ht.handles
    ids := ?_
    fuel := ht.fuel
    bodies := ht.bodies
    printed := ht.printed }⟩
  · let x : Hub := {
      thread := w.touchHome.active
      main := w.touchHome.heap.size
      current := w.touchHome.heap.size }
    change (w.touchHome.hubs.push x)[w.hubs.size]? = _
    simp only [x]
    rw [ht.hubs, ht.active, ht.heap]
    exact Array.getElem?_push_size
  · funext q
    change ((w.touchHome.alloc (.greenlet (w.touchHome.newMain w.touchHome.ids.next.1))).2.retain
      w.touchHome.heap.size).object? q = _
    rw [World.retain, object?_modifyObject, object?_alloc, ht.heap, ht.object?, World.newMain,
      ht.ids, ht.active, hsize]
    by_cases hq : q = w.heap.size
    · subst hq
      simp [World.newMain]
    · simp [hq, Ne.symm hq]
  · change (w.touchHome.heap.push _ |>.modify _ _).size = _
    rw [Array.size_modify, Array.size_push, ht.heap]
  · change w.touchHome.ids.next.2 = _
    rw [ht.ids]

theorem run_mainSteps {w : World} {st : Script.Step} {rest : List Script.Step}
    {below : List (Item Task)} {k : Nat} (hw : w.Seated)
    (hs : w.thread.stack = .task (.mainSteps (st :: rest)) :: below) (hk : w.fuel = k + 1) :
    ∃ u : World, w.run 2 = u.runStep st ∧ u.Seated ∧
      u.thread = { w.thread with
        stack := .task (.steps []) :: .task .mainGuard :: .task (.mainSteps rest) :: below } ∧
      u = { w with threads := u.threads, fuel := k } := by
  let under : List (Item Task) := .task .mainGuard :: .task (.mainSteps rest) :: below
  let a : World := w.setStack below
  let b : World := a.push [.steps [st], .mainGuard, .mainSteps rest]
  let c : World := { b.setStack under with fuel := k }
  have ha : a.Seated := (seated_modifyThread _).mpr hw
  have hb : b.Seated := (seated_modifyThread _).mpr ha
  have hc : c.Seated := by
    have : (b.setStack under).Seated := (seated_modifyThread _).mpr hb
    exact this
  have hat : a.thread = { w.thread with stack := below } := thread_modifyThread hw _
  have hbt : b.thread = { w.thread with stack := .task (.steps [st]) :: under } := by
    have h := thread_modifyThread ha fun t =>
      { t with stack := [Task.steps [st], .mainGuard, .mainSteps rest].map .task ++ t.stack }
    rw [hat] at h
    exact h
  have hct : c.thread = { w.thread with stack := under } := by
    have h : (b.setStack under).thread = { w.thread with stack := under } := by
      have h := thread_modifyThread hb fun t => { t with stack := under }
      rw [hbt] at h
      exact h
    exact h
  refine ⟨c.push [.steps []], ?_, (seated_modifyThread _).mpr hc, ?_, ?_⟩
  · have h₁ : w.run 1 = b := run_one hs nofun
    have h₂ : b.run 1 = (c.push [.steps []]).runStep st := by
      have hbs : b.thread.stack = .task (.steps [st]) :: under := by rw [hbt]
      have hf : (b.setStack under).fuel = k + 1 := hk
      rw [run_one hbs nofun]
      change (b.setStack under).runSteps [st] = _
      unfold World.runSteps
      simp only [hf]
      rfl
    rw [run_add_run 1 1, h₁, h₂]
  · have h := thread_modifyThread hc fun t =>
      { t with stack := [Task.steps []].map .task ++ t.stack }
    rw [hct] at h
    exact h
  · simp only [c, b, a, World.push, World.setStack, World.modifyThread]

def stats (w : World) : Stats :=
  match w.thread.home with
  | .full h => (w.hub h).stats
  | _ => {}

end World

namespace Script

namespace Relay

variable {bodies : List (String × List Step)} {n : Nat} {f : Failure}

/-- The main script is about to run the chain, with free names and enough fuel. The thread has no
hub so far, or nothing is under way on its hub. -/
structure Ready (R : Relay bodies n f) (w : World) (below : List (Item Task)) : Prop where
  seated : w.Seated
  known : w.bodies = bodies
  stack : w.thread.stack = .task (.mainSteps R.main) :: below
  free : ∀ i < n, w.handles.find? (R.name i) = none
  fuel : 2 * n + R.last.length ≤ w.fuel
  pending : ∀ r, w.thread.pending = .full r → ∃ c f, w.object? r = some ⟨c, .failure f⟩
  lock : ∃ m, w.lock.ensure? w.active = some m ∧ m.release = w.lock
  home : w.thread.home = .vacant ∨ ∃ h, w.thread.home = .full h ∧ h < w.hubs.size ∧
    (w.hub h).IsIdle ∧ ∃ c g, 1 ≤ c ∧ w.object? (w.hub h).current = some ⟨c, .greenlet g⟩ ∧
      g.isMain = true ∧ g.thread = (w.hub h).thread ∧ g.state.isDead = false

/-- The first greenlet of the chain is made after so many steps, and the snapshot from before fits
the world. -/
def Begun (R : Relay bodies n f) (w : World) (below : List (Item Task)) (i : HubId) (z : Snapshot)
    (o : Object) (j k : Nat) : Prop :=
  World.Depicts (w.station i bodies) (w.run j)
      (World.made (K := w.station i bodies) R z below o k) ∧
    World.Idle (w.station i bodies) z ∧ z.object z.hub.current = some o ∧
    (∀ i < n, z.handles.find? (R.name i) = none) ∧ 2 * n + R.last.length ≤ k + 1 ∧
    z.hub.stats = w.stats ∧ z.pending = w.thread.pending

variable {R : Relay bodies n f} {w : World} {below : List (Item Task)}

private theorem Ready.begun_full (h : R.Ready w below) (hn : 0 < n) {i : HubId}
    (hh : w.thread.home = .full i) (hi : i < w.hubs.size) (hidle : (w.hub i).IsIdle)
    (hroot : World.IsRooted (w.snapshot i) (w.snapshot i)) {k : Nat} (hk : w.fuel = k + 1) :
    ∃ z o j, R.Begun w below i z o j k := by
  obtain ⟨c, g, hc, ho, hmain⟩ := hroot
  have hs := World.depicts_snapshot h.seated hh hi
  rw [h.known] at hs
  obtain ⟨j, hj⟩ := World.Takes.mainCreate (K := w.station i bodies) (s := w.snapshot i) rfl
    h.stack hk hidle.closed ho (h.free 0 hn) |>.leads.reach hs
  refine ⟨w.snapshot i, _, j, hj, ⟨hidle, rfl, ⟨c, g, hc, ho, hmain⟩, World.lt_size_of_object? ho, ?_,
    h.lock⟩, ho, h.free, ?_, ?_, rfl⟩
  · intro r hr
    obtain ⟨c', f', ho'⟩ := h.pending r hr
    exact ⟨World.lt_size_of_object? ho', c', f', ho'⟩
  · rw [← hk]
    exact h.fuel
  · unfold World.stats
    rw [hh]
    rfl

private theorem Ready.begun_vacant (h : R.Ready w below) (hn : 0 < n)
    (hh : w.thread.home = .vacant) {k : Nat} (hk : w.fuel = k + 1) :
    ∃ z o j, R.Begun w below w.hubs.size z o j k := by
  obtain ⟨u, hrun, hu, hth, he⟩ := World.run_mainSteps h.seated h.stack hk
  have hvac : u.thread.home = .vacant := by rw [hth]; exact hh
  obtain ⟨v, hv, hshow⟩ := World.depicts_homeHub hu hvac
  have hbodies : u.bodies = bodies := by rw [he]; exact h.known
  have hactive : u.active = w.active := by rw [he]
  have hhubs : u.hubs.size = w.hubs.size := by rw [he]
  have hhandles : u.handles = w.handles := by rw [he]
  have hfuel : u.fuel = k := by rw [he]
  have hheap : u.heap = w.heap := by rw [he]
  have hstation : u.station u.hubs.size u.bodies = w.station w.hubs.size bodies := by
    unfold World.station
    rw [hactive, hhubs, hbodies, hth]
  rw [hstation, hactive, hhubs] at hshow
  rw [hhubs] at hv
  generalize hz : ({ u.snapshot w.hubs.size with
    hub := { thread := w.active, main := u.heap.size, current := u.heap.size }
    object := Function.update u.object? u.heap.size
      (some ⟨2, .greenlet (u.newMain u.ids.next.1)⟩)
    size := u.heap.size + 1
    ids := u.ids.next.2 } : Snapshot) = z at hshow
  have ho : z.object z.hub.current = some ⟨2, .greenlet (u.newMain u.ids.next.1)⟩ := by
    subst hz
    exact Function.update_self ..
  have hfree (i : Nat) (hi : i < n) : z.handles.find? (R.name i) = none := by
    have hnames : z.handles = w.handles := by
      subst hz
      exact hhandles
    rw [hnames]
    exact h.free i hi
  have hmade : World.Depicts _ (u.createStep (R.name 0) (R.body 0) [] [] none none) _ :=
    hshow.createStep hv (by subst hz; rfl) ho (hfree 0 hn)
  obtain ⟨j, hj⟩ := (World.Takes.note rfl).leads.reach hmade
  refine ⟨z, _, 2 + j, ?_, ⟨?_, rfl, ?_, ?_, ?_, ?_⟩, ho, hfree, ?_, ?_, ?_⟩
  · rw [World.run_add_run, hrun]
    have hstack : z.stack = .task (.steps []) :: .task .mainGuard ::
        .task (.mainSteps (.switch (R.name 0) (.built [] []) none none :: R.rest 0)) :: below := by
      subst hz
      exact congrArg Thread.stack hth
    have hleft : z.fuel = k := by
      subst hz
      exact hfuel
    have hshape : World.made (K := w.station w.hubs.size bodies) R z below
        ⟨2, .greenlet (u.newMain u.ids.next.1)⟩ k =
          { z.create w.hubs.size (.script (R.body 0) [] [])
              ⟨2, .greenlet (u.newMain u.ids.next.1)⟩ with
            handles := z.handles.insert (R.name 0) z.size } := by
      rw [← hleft]
      unfold World.made
      rw [← hstack]
      rfl
    rw [hshape]
    exact hj
  · subst hz
    exact ⟨rfl, rfl, rfl, rfl, rfl, rfl, rfl, Nat.one_pos⟩
  · refine ⟨2, _, by decide, ho, rfl, ?_, rfl⟩
    subst hz
    exact hactive
  · subst hz
    exact Nat.lt_succ_self _
  · intro r hr
    have hpend : w.thread.pending = .full r := by
      subst hz
      exact (congrArg Thread.pending hth).symm.trans hr
    obtain ⟨c, f', ho'⟩ := h.pending r hpend
    have hlt : r < u.heap.size := hheap ▸ World.lt_size_of_object? ho'
    subst hz
    refine ⟨Nat.lt_succ_of_lt hlt, c, f', (Function.update_of_ne (Nat.ne_of_lt hlt) ..).trans ?_⟩
    rw [World.object?, hheap]
    exact ho'
  · subst hz
    have hlock : ∃ m, u.lock.ensure? w.active = some m ∧ m.release = u.lock := by
      rw [show u.lock = w.lock by rw [he]]
      exact h.lock
    exact hlock
  · rw [← hk]
    exact h.fuel
  · subst hz
    unfold World.stats
    rw [hh]
  · subst hz
    change u.thread.pending = _
    rw [hth]

theorem Ready.begun (h : R.Ready w below) (hn : 0 < n) : ∃ i z o j k, R.Begun w below i z o j k := by
  obtain ⟨k, hk⟩ : ∃ k, w.fuel = k + 1 := ⟨w.fuel - 1, by have := h.fuel; omega⟩
  obtain hh | ⟨i, hh, hi, hidle, hroot⟩ := h.home
  · obtain ⟨z, o, j, hb⟩ := h.begun_vacant hn hh hk
    exact ⟨_, z, o, j, k, hb⟩
  · obtain ⟨z, o, j, hb⟩ := h.begun_full hn hh hi hidle hroot hk
    exact ⟨i, z, o, j, k, hb⟩

/-- The greenlet `i` of the chain is dead, and its parent is the one before it. -/
def Fallen (R : Relay bodies n f) (v : World) (i : Nat) : Prop :=
  ∃ r, v.handles.find? (R.name i) = some r ∧ (v.greenlet r).state = .dead ∧
    ∀ j, i = j + 1 → (v.greenlet r).parent = v.handles.find? (R.name j)

/-- The switch of the main script gets the failure as it is, and all greenlets of the chain are
dead. If nothing was pending in `w`, the failure is pending. -/
structure Reported (R : Relay bodies n f) (w v : World) (below : List (Item Task)) : Prop where
  answer : ∃ r, v.handles.find? (R.name 0) = some r ∧
    v.thread.stack = .task (.answer (.error (.propagated f))) ::
      .task (.switched "switch" r none) :: .task (.steps []) :: .task .mainGuard ::
      .task (.mainSteps (R.rest 0)) :: below
  fallen : ∀ i < n, R.Fallen v i
  stats : v.stats = { w.stats with
    switches := w.stats.switches + 2 * n
    started := w.stats.started + n
    finished := w.stats.finished + n }
  pending : w.thread.pending = .vacant → ∃ r, v.thread.pending = .full r ∧ v.valueD r = .failure f

/-- The parent of the last greenlet, which is dead, has control and gets an empty result from its
switch. -/
structure Hushed (R : Relay bodies n f) (v : World) : Prop where
  answer : ∃ r under, v.handles.find? (R.name (n - 1)) = some r ∧
    (v.greenlet r).state = .dead ∧
    v.thread.stack = .task (.answer (.ok .empty)) :: .task (.switched "switch" r none) :: under ∧
    ∃ h, v.thread.home = .full h ∧ (v.greenlet r).parent = some (v.hub h).current

private theorem reported {i : HubId} {z s : Snapshot} {v : World}
    (hs : World.Depicts (w.station i bodies) v s)
    (hc : World.Crossed (K := w.station i bodies) R z below s) (hn : 0 < n)
    (hz : z.hub.stats = w.stats) (hp : z.pending = w.thread.pending) :
    R.Reported w v below := by
  have hnames (j : Nat) (hj : j < n) : v.handles.find? (R.name j) = some (World.seat z j) := by
    rw [hs.handles, hc.names j hj, if_pos hj]
  constructor
  · exact ⟨_, hnames 0 hn, hs.stack.trans hc.stack⟩
  · intro j hj
    obtain ⟨c, g, -, ho, hdead, hpar⟩ := hc.past j hj
    refine ⟨_, hnames j hj, by rw [hs.greenlet ho]; exact hdead, ?_⟩
    rintro k rfl
    rw [hs.greenlet ho, hpar, hnames k (Nat.lt_of_succ_lt hj)]
    rfl
  · have hstats : v.stats = s.hub.stats := by
      unfold World.stats
      simp only [hs.home, hs.hub]
    rw [hstats, hc.stats, hz]
  · intro hv
    obtain ⟨r, c, hr, ho⟩ := hc.pending (hp.trans hv)
    refine ⟨r, hs.pending.trans hr, ?_⟩
    unfold World.valueD
    rw [hs.object, ho]
    rfl

/-- A failure that crosses a chain of greenlets gets to the main script unchanged. The exit marker
ends at the parent of the greenlet that fails. -/
theorem Ready.crosses (h : R.Ready w below) (hn : 0 < n) :
    (f.isExit = false → ∃ j, R.Reported w (w.run j) below) ∧
      (f.isExit = true → ∃ j, R.Hushed (w.run j)) := by
  obtain ⟨i, z, o, j, k, hshow, hidle, ho, hfree, hfuel, hstats, hpend⟩ := h.begun hn
  obtain ⟨hcross, hstop⟩ := World.chain R below hidle hn hfree hfuel ho
  refine ⟨fun hx => ?_, fun hx => ?_⟩
  · obtain ⟨t, hl, ht⟩ := hcross hx
    obtain ⟨m, hm⟩ := hl.reach hshow
    exact ⟨j + m, by rw [World.run_add_run]; exact reported hm ht hn hstats hpend⟩
  · obtain ⟨t, hl, ht⟩ := hstop hx
    obtain ⟨m, hm⟩ := hl.reach hshow
    obtain ⟨under, hstack⟩ := ht.stack
    obtain ⟨c, g, -, ho', hdead, hpar⟩ := ht.past
    refine ⟨j + m, ⟨World.seat z (n - 1), under, ?_, ?_, ?_, i, ?_, ?_⟩⟩ <;> rw [World.run_add_run]
    · rw [hm.handles, ht.names]
    · rw [hm.greenlet ho', hdead]
    · exact hm.stack.trans hstack
    · exact hm.home
    · rw [hm.greenlet ho', hpar, hm.hub, ht.current]

/-- The bodies of three greenlets, of which the last one panics. -/
def panickingBodies : List (String × List Step) :=
  [("a", pass "h" "b" []), ("b", pass "k" "c" [.pop]), ("c", [.current, .panic "boom" .text])]

def panicking : Relay panickingBodies 3 ⟨.panic, "boom"⟩ where
  name i := ["g", "h", "k"][i]?.getD ""
  body i := ["a", "b", "c"][i]?.getD ""
  rest i := if i = 2 then [.pop] else []
  last := [.current, .panic "boom" .text]
  plain := by
    unfold IsPlain
    decide
  distinct := by decide
  passes i hi := by
    obtain rfl | rfl : i = 0 ∨ i = 1 := by omega
    · rfl
    · rfl
  ends i hi := by
    obtain rfl : i = 2 := by omega
    rfl
  fails := .look rfl (.panic "boom" .text [])

def panickingStart : World := start .empty panickingBodies panicking.main 9

theorem Ready.crosses_panicking :
    ∃ j below, panicking.Reported panickingStart (panickingStart.run j) below := by
  have h : panicking.Ready panickingStart _ := {
    seated := ⟨Nat.one_pos, Nat.le_refl 1⟩
    known := rfl
    stack := rfl
    free := fun _ _ => rfl
    fuel := by decide
    pending := nofun
    lock := ⟨_, rfl, rfl⟩
    home := .inl rfl }
  obtain ⟨j, hj⟩ := (h.crosses (by decide)).1 rfl
  exact ⟨j, _, hj⟩

end Relay

end Script

end Switchyard
