import Switchyard.Proofs.Relay.Chain

/-!
# The way back up a chain

The last greenlet of a chain fails. One after the other, each of those that wait gets the failure
from its switch, does not catch it and ends with it.
-/

namespace Switchyard

namespace World

section

variable {K : Site} {n : Nat} {f : Failure} (R : Script.Relay K.bodies n f) (z : Snapshot)
  (below : List (Item Task))

/-- The failure is pending. -/
def Holds (f : Failure) (s : Snapshot) : Prop :=
  ∃ r c, s.pending = .full r ∧ s.object r = some ⟨c, .failure f⟩

/-- What is pending is a failure. -/
def Tidy (s : Snapshot) : Prop := ∀ r, s.pending = .full r → ∃ e, Holds e s

/-- The greenlet `i` has left the failure as its result. -/
structure Up (i : Nat) (s : Snapshot) : Prop
    extends Stage R z below i n (z.hub.holders + (i + 1)) [] (some (.result (.error f))) s where
  pending : z.pending = .vacant → s.pending = .vacant ∨ Holds f s

/-- The greenlet `i` is dead, and the driver goes on with the one that made it. -/
structure Handing (i : Nat) (q : Payload) (s : Snapshot) : Prop extends Laid R z n s where
  stack : s.stack = .task (.driveTarget K.hub (maker z i) q) :: foot R z below
  hub : ∃ nodes, s.hub = { z.hub with
    current := seat z i
    runningFiber := false
    driving := true
    outgoing := none
    nodes
    stats := { z.hub.stats with
      switches := z.hub.stats.switches + (2 * n - (i + 1))
      started := z.hub.stats.started + n
      finished := z.hub.stats.finished + (n - i) }
    holders := z.hub.holders + (i + 1) }
  root : IsRooted z s
  waits : ∀ j < i, Waits R z j s
  ended : IsOver z 3 i s
  past : ∀ j, i < j → j < n → IsOver z 1 j s

/-- The main greenlet goes on, and all the greenlets are dead. -/
structure Home (s : Snapshot) : Prop extends Laid R z n s where
  stack : s.stack = foot R z below
  hub : ∃ nodes, s.hub = { z.hub with
    nodes
    stats := { z.hub.stats with
      switches := z.hub.stats.switches + 2 * n
      started := z.hub.stats.started + n
      finished := z.hub.stats.finished + n }
    holders := z.hub.holders + 1 }
  root : IsRooted z s
  ended : IsOver z 2 0 s
  past : ∀ j, 0 < j → j < n → IsOver z 1 j s

variable {R z below} {i m hold : Nat} {s t : Snapshot} {top : List (Item Task)}
  {out : Option Outgoing}

theorem Stage.congr {hold' : Nat} {top' : List (Item Task)} {out' : Option Outgoing}
    (h : Stage R z below i m hold top out s) (hz : Idle K z) (him : i < m)
    (hstack : t.stack = top' ++ ground R z below i)
    (hhub : t.hub = { s.hub with outgoing := out', holders := hold' }) (hsize : s.size ≤ t.size)
    (hhandles : t.handles = s.handles) (hlock : t.lock = s.lock) (hfib : t.fibers = s.fibers)
    (hobj : ∀ q < s.size, q ≠ seat z (i + 1) → t.object q = s.object q)
    (hnext : i + 1 < m → IsOver z 1 (i + 1) t) : Stage R z below i m hold' top' out' t := by
  have hseat (j : Nat) (hj : j < m) : seat z j < s.size :=
    Nat.lt_of_lt_of_le (Nat.add_lt_add_left hj _) h.size
  have hbefore (q : Ref) (hq : q < z.size) : t.object q = s.object q := by
    refine hobj q (Nat.lt_of_lt_of_le (Nat.lt_of_lt_of_le hq (Nat.le_add_right ..)) h.size) ?_
    exact Nat.ne_of_lt (Nat.lt_of_lt_of_le hq (Nat.le_add_right ..))
  obtain ⟨nodes, hh⟩ := h.hub
  refine {
    size := Nat.le_trans h.size hsize
    names := fun j hj => by rw [hhandles]; exact h.names j hj
    others := fun q hq hq' => (hbefore q hq).trans (h.others q hq hq')
    lock := hlock.trans h.lock
    stack := hstack
    hub := ⟨nodes, by rw [hhub, hh]⟩
    root := h.root.keep (.of_eq (hbefore _ hz.placed))
    waits := fun j hj => ?_
    runs := ⟨?_, by rw [hfib]; exact h.runs.fiber⟩
    past := fun j hj hj' => ?_ }
  · exact (h.waits j hj).keep (.of_eq (hobj _ (hseat j (Nat.lt_trans hj him)) (by simp; omega)))
      (by rw [hfib])
  · rw [hobj _ (hseat i him) (by simp)]
    exact h.runs.object
  · by_cases he : j = i + 1
    · subst he
      exact hnext hj'
    · exact (h.past j hj hj').keep (.of_eq (hobj _ (hseat j hj') (by simp [he])))

theorem object_register (f : Failure) {q : Ref} (hq : q < s.size) :
    (s.register f).object q = s.object q := by
  unfold Snapshot.register
  cases s.pending with
  | vacant => exact Function.update_of_ne (Nat.ne_of_lt hq) ..
  | full r => rfl
  | gone => rfl

theorem size_register (f : Failure) (s : Snapshot) : s.size ≤ (s.register f).size := by
  unfold Snapshot.register
  cases s.pending with
  | vacant => exact Nat.le_succ _
  | full r => exact Nat.le_refl _
  | gone => exact Nat.le_refl _

theorem holds_register (h : s.pending = .vacant ∨ Holds f s) : Holds f (s.register f) := by
  unfold Snapshot.register
  obtain hp | ⟨r, c, hr, ho⟩ := h
  · exact ⟨s.size, 1, by simp [hp], by simp [hp]⟩
  · exact ⟨r, c, by simp [hr], by simp [hr, ho]⟩

theorem Tidy.register (h : Tidy s) : Tidy (s.register f) := by
  intro r hr
  cases hp : s.pending with
  | vacant => exact ⟨f, holds_register (.inl hp)⟩
  | full q =>
    have he : s.register f = s := by
      unfold Snapshot.register
      simp only [hp]
      rw [← hp]
    rw [he]
    exact h q hp
  | gone =>
    have he : s.register f = s := by
      unfold Snapshot.register
      simp only [hp]
      rw [← hp]
    rw [he] at hr ⊢
    exact h r hr

theorem Down.fails (h : Down R z below i s) (hz : Idle K z) (hi : i + 1 = n) :
    ∃ t, Leads K s t ∧ Up R z below i t ∧ Tidy t := by
  subst hi
  have hstk := h.stack
  rw [R.ends i rfl] at hstk
  obtain ⟨nodes, hh⟩ := h.hub
  have hfuel := h.fuel
  obtain ⟨k, u, hu, hl⟩ := Takes.failsWith hz.home R.fails hstk (by omega) h.runs.fiber rfl
    (by rw [hh]; exact Nat.succ_pos _) (by rw [hh])
  have htidy : Tidy s := fun r hr => by
    obtain ⟨hlt, c, e, ho⟩ := hz.pending r (h.pending.symm.trans hr)
    obtain ⟨c', g, -, hg, -⟩ := hz.rooted
    have hne : r ≠ z.hub.current := by
      rintro rfl
      rw [ho] at hg
      cases hg
    exact ⟨e, r, c, hr, (h.others r hlt hne).trans ho⟩
  rcases hu with rfl | rfl
  · refine ⟨_, hl, ⟨?_, fun hp => .inl (h.pending.trans hp)⟩, htidy⟩
    exact h.toStage.congr hz (Nat.lt_succ_self i) rfl (by rw [hh]; rfl) (Nat.le_refl _) rfl rfl rfl
      (fun _ _ _ => rfl) fun hlt => absurd hlt (Nat.lt_irrefl _)
  · refine ⟨_, hl, ⟨?_, fun hp => .inr (holds_register (.inl (h.pending.trans hp)))⟩,
      htidy.register⟩
    exact h.toStage.congr hz (Nat.lt_succ_self i) rfl (by rw [hh]; rfl) (size_register f s) rfl rfl
      rfl (fun _ hq _ => object_register f hq) fun hlt => absurd hlt (Nat.lt_irrefl _)

theorem Up.finish (h : Up R z below i s) (hz : Idle K z) (hi : i < n) :
    ∃ t, Leads K s t ∧ Handing R z below i (exitToEmpty (.error f)) t ∧ t.pending = s.pending ∧
      (∀ e, Holds e s → Holds e t) := by
  obtain ⟨nodes, hh⟩ := h.hub
  obtain ⟨c, id, hc, ho⟩ := h.runs.object
  have hmaker : ∃ d g, s.object (maker z i) = some ⟨d, .greenlet g⟩ ∧ g.state.isDead = false := by
    cases i with
    | zero =>
      obtain ⟨d, g, -, hd, -, -, hg⟩ := h.root
      exact ⟨d, g, hd, hg⟩
    | succ j =>
      obtain ⟨d, id, -, hd⟩ := (h.waits j (Nat.lt_succ_self j)).object
      exact ⟨d, _, hd, rfl⟩
  obtain ⟨d, g, hd, hg⟩ := hmaker
  have hne : seat z i ≠ maker z i := by
    cases i with
    | zero => exact (seat_ne hz).symm
    | succ j => simp [maker]
  have hl := Takes.finish (K := K) h.stack h.runs.fiber rfl (by rw [hh]) ho (Nat.le_trans (by decide) hc) rfl
    rfl hne hd hg (by rw [hh]; exact hz.deferred) (by rw [hh]; exact hz.foreign)
  let u := Function.update (Function.update s.object (maker z i) (some ⟨d + 1, .greenlet g⟩))
    (seat z i) (some ⟨c - 1, .greenlet { member z K id i .running with
      state := .dead, fiber := none }⟩)
  have hkeep (r : Ref) (hr : r ≠ seat z i) (c' : Nat) (v : Value)
      (hv : s.object r = some ⟨c', v⟩) : ∃ c'', c' ≤ c'' ∧ u r = some ⟨c'', v⟩ := by
    by_cases hm : r = maker z i
    · subst hm
      rw [hd] at hv
      cases hv
      exact ⟨d + 1, Nat.le_succ d, by simp [u, hne.symm]⟩
    · exact ⟨c', Nat.le_refl c', by simpa [u, hr, hm] using hv⟩
  refine ⟨_, hl.leads, {
    size := h.size
    names := h.names
    others := fun q hq hq' => ?_
    lock := h.lock
    stack := rfl
    hub := ⟨nodes, ?_⟩
    root := h.root.keep (hkeep _ (seat_ne hz))
    waits := fun j hj => ?_
    ended := ⟨c - 1, _, by omega, Function.update_self .., rfl, rfl⟩
    past := fun j hj hj' => (h.past j hj hj').keep (hkeep _ (by simp; omega)) }, rfl, ?_⟩
  · have hi : q ≠ seat z i := Nat.ne_of_lt (Nat.lt_of_lt_of_le hq (Nat.le_add_right ..))
    have hm : q ≠ maker z i := by
      cases i with
      | zero => exact hq'
      | succ j => exact Nat.ne_of_lt (Nat.lt_of_lt_of_le hq (Nat.le_add_right ..))
    exact (by simp [hi, hm] : _ = s.object q).trans (h.others q hq hq')
  · have hs : n - (i + 1) + 1 = n - i := by omega
    rw [hh, ← hs]
    rfl
  · refine (h.waits j hj).keep (hkeep _ (by simp; omega)) ?_
    have hne : lane z i ≠ lane z j := by simp; omega
    rw [Array.getElem?_modify, if_neg hne]
  · rintro e ⟨r, c', hr, hr'⟩
    have hne : r ≠ seat z i := by
      rintro rfl
      rw [ho] at hr'
      cases hr'
    obtain ⟨c'', -, hu⟩ := hkeep r hne c' _ hr'
    exact ⟨r, c'', hr, hu⟩

theorem Handing.goOn {q : Payload} (h : Handing R z below (i + 1) q s) (hz : Idle K z)
    (hi : i + 1 < n) :
    ∃ t, Leads K s (t.receive q) ∧
      Stage R z below i n (z.hub.holders + (i + 2)) (waiting R z i) none t ∧
      IsOver z 2 (i + 1) t ∧ t.pending = s.pending ∧ (∀ e, Holds e s → Holds e t) := by
  obtain ⟨nodes, hh⟩ := h.hub
  obtain ⟨c, g, hc, ho, hg, hpar⟩ := h.ended
  have hw := h.waits i (Nat.lt_succ_self i)
  obtain ⟨d, id, hd, hp⟩ := hw.object
  have hcur : s.hub.current = seat z (i + 1) := by rw [hh]
  have hne : s.hub.current ≠ seat z i := by simp [hcur]
  rw [← hcur] at ho
  have hl := Takes.goOn (K := K) h.stack hp rfl rfl rfl rfl (by rw [hh]; rfl) hw.fiber rfl hne ho
    (Nat.le_trans (by decide) hc)
  let u := Function.update (Function.update s.object s.hub.current
    (some ⟨c - 1, .greenlet { g with state := g.state.giveWay }⟩)) (seat z i)
      (some ⟨d + 1, .greenlet { member z K id i .suspended with state := .running }⟩)
  have hkeep (r : Ref) (hr : r ≠ seat z (i + 1)) (hr' : r ≠ seat z i) : u r = s.object r := by
    simp [u, hcur, hr, hr']
  have hended : IsOver z 2 (i + 1) { s with object := u } :=
    ⟨c - 1, { g with state := g.state.giveWay }, by omega, by simp [u, hcur], by simp [hg]; rfl,
      hpar⟩
  refine ⟨_, hl.leads, {
    size := h.size
    names := h.names
    others := fun q hq hq' => ?_
    lock := h.lock
    stack := rfl
    hub := ⟨nodes, ?_⟩
    root := h.root.keep (.of_eq (hkeep _ (seat_ne hz) (seat_ne hz)))
    waits := fun j hj => ?_
    runs := ⟨⟨d + 1, id, by omega, Function.update_self ..⟩, ?_⟩
    past := fun j hj hj' => ?_ }, hended, rfl, ?_⟩
  · refine (hkeep q ?_ ?_).trans (h.others q hq hq')
    · exact Nat.ne_of_lt (Nat.lt_of_lt_of_le hq (Nat.le_add_right ..))
    · exact Nat.ne_of_lt (Nat.lt_of_lt_of_le hq (Nat.le_add_right ..))
  · have hs : 2 * n - (i + 1 + 1) + 1 = 2 * n - (i + 1) := by omega
    rw [hh, ← hs]
    simp [maker, Nat.add_assoc]
  · refine (h.waits j (Nat.lt_succ_of_lt hj)).keep
      (.of_eq (hkeep _ (by simp; omega) (by simp; omega))) ?_
    have hne : lane z i ≠ lane z j := by simp; omega
    rw [Array.getElem?_modify, if_neg hne]
  · rw [Array.getElem?_modify, if_pos rfl, hw.fiber]
    rfl
  · by_cases he : j = i + 1
    · subst he
      obtain ⟨c', g', hc', ho', hg'⟩ := hended
      exact ⟨c', g', Nat.le_trans (by decide) hc', ho', hg'⟩
    · exact (h.past j (by omega) hj').keep (.of_eq (hkeep _ (by simp [he]) (by simp; omega)))
  · rintro e ⟨r, c', hr, hr'⟩
    refine ⟨r, c', hr, (hkeep r ?_ ?_).trans hr'⟩
    · rintro rfl
      rw [← hcur, ho] at hr'
      cases hr'
    · rintro rfl
      rw [hp] at hr'
      cases hr'

theorem Handing.goHome {q : Payload} (h : Handing R z below 0 q s) (hz : Idle K z) (hn : 0 < n) :
    ∃ t, Leads K s (t.receive q) ∧ Home R z below t ∧ t.pending = s.pending ∧
      (∀ e, Holds e s → Holds e t) := by
  obtain ⟨nodes, hh⟩ := h.hub
  obtain ⟨c, g, hc, ho, hg, hpar⟩ := h.ended
  obtain ⟨d, m, hd, hp, hm, ht, hl⟩ := h.root
  have hcur : s.hub.current = seat z 0 := by rw [hh]
  have hne : s.hub.current ≠ z.hub.current := by rw [hcur]; exact (seat_ne hz).symm
  rw [← hcur] at ho
  have hl := Takes.backAtMain (K := K) h.stack hp hm (by rw [hh]; exact ht) hl hd hne ho
    (Nat.le_trans (by decide) hc)
  let u := Function.update (Function.update s.object s.hub.current
    (some ⟨c - 1, .greenlet { g with state := g.state.giveWay }⟩)) z.hub.current
      (some ⟨d, .greenlet { m with state := .running }⟩)
  have hkeep (r : Ref) (hr : r ≠ seat z 0) (hr' : r ≠ z.hub.current) : u r = s.object r := by
    simp [u, hcur, hr, hr']
  have hended : IsOver z 2 0 { s with object := u } :=
    ⟨c - 1, { g with state := g.state.giveWay }, by omega,
      by simp [u, hcur, (seat_ne hz).symm], by simp [hg]; rfl, hpar⟩
  refine ⟨_, hl.leads, {
    size := h.size
    names := h.names
    others := fun q hq hq' =>
      (hkeep q (Nat.ne_of_lt (Nat.lt_of_lt_of_le hq (Nat.le_add_right ..))) hq').trans
        (h.others q hq hq')
    lock := h.lock
    stack := rfl
    hub := ⟨nodes, ?_⟩
    root := ⟨d, { m with state := .running }, hd, Function.update_self .., hm, ht, rfl⟩
    ended := hended
    past := fun j hj hj' => (h.past j hj hj').keep
      (.of_eq (hkeep _ (by simp; omega) (seat_ne hz).symm)) }, rfl, ?_⟩
  · have hs : 2 * n - (0 + 1) + 1 = 2 * n := by omega
    rw [hh, ← hs]
    simp [maker, hz.running, hz.driving, hz.outgoing, Nat.add_assoc]
  · rintro e ⟨r, c', hr, hr'⟩
    refine ⟨r, c', hr, (hkeep r ?_ ?_).trans hr'⟩
    · rintro rfl
      rw [← hcur, ho] at hr'
      cases hr'
    · rintro rfl
      rw [hp] at hr'
      cases hr'

theorem Handing.up (h : Handing R z below (i + 1) (.error f) s) (hz : Idle K z) (hi : i + 1 < n)
    (hp : z.pending = .vacant → s.pending = .vacant ∨ Holds f s) :
    ∃ t, Leads K s t ∧ Up R z below i t := by
  obtain ⟨t, hl, hst, hov, hpend, hhold⟩ := h.goOn hz hi
  obtain ⟨nodes, hh⟩ := hst.hub
  obtain ⟨c, g, hc, ho, hg, hpar⟩ := hov
  let u : Snapshot := t.receive (.error f)
  have hlt : seat z (i + 1) < t.size := Nat.lt_of_lt_of_le (Nat.add_lt_add_left hi _) hst.size
  have hou : u.object (seat z (i + 1)) = some ⟨c, .greenlet g⟩ := (object_register f hlt).trans ho
  have hus : u.stack = .task (.answer (.error (.propagated f))) :: .task (.leaveHub K.hub) ::
      .task (.switched "switch" (seat z (i + 1)) none) :: .task (.steps (R.rest (i + 1))) ::
      (around R z i ++ ground R z below i) := by
    change .task (.answer (.error (.propagated f))) :: t.stack = _
    rw [hst.stack]
    rfl
  have huh : u.hub = t.hub := rfl
  have hl₂ := Takes.answerPastHub (K := K) hus (by rw [huh, hh]; exact Nat.succ_le_succ (Nat.succ_pos _))
  have hheld : 0 < u.hub.holders - 1 := by
    rw [huh, hh]
    exact Nat.succ_pos _
  have hout : u.hub.outgoing = none := by rw [huh, hh]
  refine ⟨_, hl.trans (Takes.trans hl₂
      (Takes.propagate rfl hou hc hst.runs.fiber rfl hheld hout) rfl).leads,
    hst.congr hz (Nat.lt_of_succ_lt hi) rfl ?_ (size_register f t) rfl rfl rfl ?_ ?_, ?_⟩
  · have hholders : t.hub.holders - 1 = z.hub.holders + (i + 1) := by
      rw [hh]
      rfl
    rw [← hholders]
    rfl
  · intro q hq hq'
    exact (Function.update_of_ne hq' ..).trans (object_register f hq)
  · intro _
    exact ⟨c - 1, g, by omega, Function.update_self .., hg, hpar⟩
  · intro hv
    have ht : t.pending = .vacant ∨ Holds f t := by
      obtain h | h := hp hv
      · exact .inl (hpend.trans h)
      · exact .inr (hhold f h)
    obtain ⟨r, c', hr, hr'⟩ := holds_register ht
    have hne : r ≠ seat z (i + 1) := by
      rintro rfl
      have hbad := hou.symm.trans hr'
      cases hbad
    exact .inr ⟨r, c', hr, (Function.update_of_ne hne ..).trans hr'⟩

/-- The failure goes up from greenlet to greenlet and gets to the main greenlet. -/
theorem Up.toMain (hx : f.isExit = false) (hz : Idle K z) (hi : i < n) (h : Up R z below i s) :
    ∃ t, Leads K s (t.receive (.error f)) ∧ Home R z below t ∧
      (z.pending = .vacant → t.pending = .vacant ∨ Holds f t) := by
  have hq : exitToEmpty (.error f) = .error f := by simp [exitToEmpty, hx]
  induction i generalizing s with
  | zero =>
    obtain ⟨t, hl, ht, hp, hhold⟩ := h.finish hz hi
    rw [hq] at ht
    obtain ⟨u, hl', hu, hp', hhold'⟩ := ht.goHome hz hi
    refine ⟨u, hl.trans hl', hu, fun hv => ?_⟩
    exact (h.pending hv).imp (fun he => hp'.trans (hp.trans he)) fun hf => hhold' f (hhold f hf)
  | succ i ih =>
    obtain ⟨t, hl, ht, hp, hhold⟩ := h.finish hz hi
    rw [hq] at ht
    obtain ⟨u, hl', hu⟩ := ht.up hz hi fun hv =>
      (h.pending hv).imp (fun he => hp.trans he) (hhold f)
    obtain ⟨v, hl'', hv⟩ := ih (Nat.lt_of_succ_lt hi) hu
    exact ⟨v, hl.trans (hl'.trans hl''), hv⟩

end

end World

end Switchyard
