import Switchyard.Proofs.Motion.Lineage
import Switchyard.Proofs.Refusals

/-!
# Moving a greenlet

A bounded walk sees the nearest ancestors and then either their end or its bound. So a greenlet may
move under another one exactly if it is no main greenlet, the other one is of its thread, is neither
itself nor below it, and has no more ancestors than the bound allows.
-/

namespace Switchyard

namespace World

variable {w v : World} {r p : Ref} {g q : Greenlet}

/-- The ancestors of `r` that are at most `n` links away, the nearest first. -/
def ancestors (w : World) : Nat → Ref → List Ref
  | 0, _ => []
  | n + 1, r =>
    match w.parent r with
    | none => []
    | some p => p :: w.ancestors n p

theorem ancestors_of_root (h : w.parent r = none) (n : Nat) : w.ancestors n r = [] := by
  cases n with
  | zero => rfl
  | succ n => simp [ancestors, h]

theorem ancestors_succ (h : w.parent r = some p) (n : Nat) :
    w.ancestors (n + 1) r = p :: w.ancestors n p := by
  simp [ancestors, h]

theorem ancestors_prefix (w : World) (n k : Nat) (r : Ref) :
    w.ancestors n r <+: w.ancestors (n + k) r := by
  induction n generalizing r with
  | zero => exact List.nil_prefix
  | succ n ih =>
    cases h : w.parent r with
    | none => simp [ancestors_of_root h]
    | some p =>
      rw [Nat.succ_add, ancestors_succ h, ancestors_succ h]
      exact List.prefix_cons_inj p |>.mpr (ih p)

theorem ancestors_eq_of_length_le {n : Nat} (h : (w.ancestors (n + 1) r).length ≤ n) (k : Nat) :
    w.ancestors (n + k) r = w.ancestors n r := by
  induction n generalizing r with
  | zero =>
    cases hp : w.parent r with
    | none => rw [ancestors_of_root hp, ancestors_of_root hp]
    | some p => simp [ancestors_succ hp] at h
  | succ n ih =>
    cases hp : w.parent r with
    | none => rw [ancestors_of_root hp, ancestors_of_root hp]
    | some p =>
      rw [ancestors_succ hp, List.length_cons, Nat.add_le_add_iff_right] at h
      rw [Nat.succ_add, ancestors_succ hp, ancestors_succ hp, ih h]

theorem Lineage.ancestors_eq {l : List Ref} (h : w.Lineage r l) (n : Nat) :
    w.ancestors n r = l.take n := by
  induction h generalizing n with
  | root h₀ => rw [ancestors_of_root h₀, List.take_nil]
  | link h₀ _ ih =>
    cases n with
    | zero => rfl
    | succ n => rw [ancestors_succ h₀, List.take_succ_cons, ih]

/-- A bounded walk finds the nearest ancestor of the kind that it looks for. Without one it tells
whether it has come to the end. -/
theorem findAncestor_eq (w : World) (f : Ref → Bool) (n : Nat) (r : Ref) :
    w.findAncestor f n r = match (w.ancestors n r).find? f with
      | some q => .ok (some q)
      | none => if (w.ancestors (n + 1) r).length ≤ n then .ok none else .error () := by
  induction n generalizing r with
  | zero =>
    cases h : w.parent r with
    | none => simp [findAncestor, ancestors, h]
    | some p => simp [findAncestor, ancestors, h]
  | succ n ih =>
    cases h : w.parent r with
    | none => simp [findAncestor, ancestors_of_root h, h]
    | some p =>
      rw [ancestors_succ h, ancestors_succ h, findAncestor, h, List.find?_cons]
      cases hf : f p with
      | true => simp [hf]
      | false => simp [hf, ih]

/-- `r` may go under `p`. -/
structure MayMove (w : World) (r p : Ref) : Prop where
  movable : (w.greenlet r).isMain = false
  thread : (w.greenlet p).thread = (w.greenlet r).thread
  other : p ≠ r
  below : ∀ n, r ∉ w.ancestors n p
  near : ∀ n, (w.ancestors n p).length ≤ w.depthLimit

/-- Why `r` does not go under `p`, the reason that counts first. -/
def moveReasons (w : World) (r p : Ref) : List (Bool × SwitchError) :=
  let limit := w.depthLimit
  [((w.greenlet r).isMain, .mainParent),
    ((w.greenlet p).thread != (w.greenlet r).thread, .crossThreadParent (w.greenlet p).id),
    (decide (p = r ∨ r ∈ w.ancestors limit p), .parentCycle (w.greenlet r).id),
    (decide (limit < (w.ancestors (limit + 1) p).length), .nestingTooDeep limit)]

theorem ancestor_beq (w : World) (r p : Ref) :
    w.ancestor (· == r) p =
      if r ∈ w.ancestors w.depthLimit p then .ok (some r)
      else if w.depthLimit < (w.ancestors (w.depthLimit + 1) p).length then
        .error (.nestingTooDeep w.depthLimit)
      else .ok none := by
  have hwalk := w.findAncestor_eq (· == r) w.depthLimit p
  unfold ancestor ancestorWithin
  cases hf : (w.ancestors w.depthLimit p).find? (· == r) with
  | some q =>
    have hq : q = r := by simpa using List.find?_some hf
    have hmem : r ∈ w.ancestors w.depthLimit p := hq ▸ List.mem_of_find?_eq_some hf
    rw [hwalk, hf, if_pos hmem, hq]
  | none =>
    have hmem : r ∉ w.ancestors w.depthLimit p := fun hr => by
      simpa using List.find?_eq_none.mp hf r hr
    rw [hwalk, hf, if_neg hmem]
    by_cases hlen : w.depthLimit < (w.ancestors (w.depthLimit + 1) p).length
    · simp [hlen, Nat.not_le.mpr hlen]
    · simp [hlen, Nat.not_lt.mp hlen]

theorem reparentError?_eq_firstReason (w : World) (r p : Ref) :
    w.reparentError? r p = firstReason (w.moveReasons r p) := by
  simp only [moveReasons, firstReason_cons, reparentError?, ancestor_beq, decide_eq_true_eq]
  split
  · rfl
  split
  · rfl
  by_cases hp : p = r
  · simp [hp]
  by_cases hmem : r ∈ w.ancestors w.depthLimit p
  · simp [hp, hmem]
  by_cases hlen : w.depthLimit < (w.ancestors (w.depthLimit + 1) p).length
  · simp [hp, hmem, hlen]
  · simp [hp, hmem, hlen, firstReason]

/-- There is no reason against a move exactly if it is legal. What is beyond the bound of the walk
needs no look: the walk says so. -/
theorem firstReason_moveReasons_eq_none_iff :
    firstReason (w.moveReasons r p) = none ↔ w.MayMove r p := by
  have hnone : firstReason (w.moveReasons r p) = none ↔
      (w.greenlet r).isMain = false ∧ (w.greenlet p).thread = (w.greenlet r).thread ∧ p ≠ r ∧
        r ∉ w.ancestors w.depthLimit p ∧
        (w.ancestors (w.depthLimit + 1) p).length ≤ w.depthLimit := by
    simp [firstReason, moveReasons, and_assoc]
  rw [hnone]
  constructor
  · rintro ⟨hm, ht, hne, hmem, hlen⟩
    have hall (n : Nat) : w.ancestors n p <+: w.ancestors w.depthLimit p := by
      have h := w.ancestors_prefix n w.depthLimit p
      rwa [Nat.add_comm, ancestors_eq_of_length_le hlen] at h
    have hself : (w.ancestors w.depthLimit p).length ≤ w.depthLimit :=
      Nat.le_trans (w.ancestors_prefix w.depthLimit 1 p).length_le hlen
    exact ⟨hm, ht, hne, fun n hr => hmem ((hall n).subset hr),
      fun n => Nat.le_trans (hall n).length_le hself⟩
  · intro h
    exact ⟨h.movable, h.thread, h.other, h.below _, h.near _⟩

theorem parent_retain (q r : Ref) : (w.retain q).parent r = w.parent r := by
  rw [World.parent, greenlet_eq, greenlet?_retain, ← greenlet_eq, World.parent]

theorem parent_modifyGreenlet (q r : Ref) (f : Greenlet → Greenlet) (hq : q ≠ r) :
    (w.modifyGreenlet q f).parent r = w.parent r := by
  rw [World.parent, greenlet_eq, greenlet?_modifyGreenlet, if_neg hq, ← greenlet_eq, World.parent]

/-- A greenlet moves under another one exactly if that is legal. Then its link is the only one that
changes, and its old parent is left to be dropped. Otherwise no link changes, and the error is the
first that applies. This holds in every world, whatever thread asks and whatever state the
greenlets are in. -/
theorem setParent_outcome (hw : w.Seated) (hr : w.greenlet? r = some g) (p : Ref) :
    ((∃ old v, w.setParent r p = (.ok old, v)) ↔ w.MayMove r p) ∧
    (∀ old v, w.setParent r p = (.ok old, v) →
      old = g.parent ∧ v.parent r = some p ∧ ∀ x, x ≠ r → v.parent x = w.parent x) ∧
    ∀ e v, w.setParent r p = (.error e, v) →
      firstReason (w.moveReasons r p) = some e ∧ ∀ x, v.parent x = w.parent x := by
  refine ⟨?_, ?_, ?_⟩
  · rw [← firstReason_moveReasons_eq_none_iff, ← reparentError?_eq_firstReason]
    constructor
    · rintro ⟨old, v, hs⟩
      exact (setParent_ok hs).1
    · intro hn
      refine ⟨w.parent r, (w.retain p).modifyGreenlet r fun g => { g with parent := some p }, ?_⟩
      unfold setParent
      rw [hn]
  · intro old v hs
    obtain ⟨-, rfl, rfl⟩ := setParent_ok hs
    refine ⟨by rw [World.parent, greenlet_of_some hr], ?_, fun x hx => ?_⟩
    · rw [World.parent, greenlet_eq, greenlet?_modifyGreenlet, if_pos rfl, greenlet?_retain, hr]
      rfl
    · rw [parent_modifyGreenlet r x _ (Ne.symm hx), parent_retain]
  · intro e v hs
    obtain ⟨he, href⟩ := setParent_refused hw hs
    refine ⟨(reparentError?_eq_firstReason w r p).symm.trans he, fun x => ?_⟩
    rw [World.parent, greenlet_eq, href.unaltered.greenlets, ← greenlet_eq, World.parent]

/-- Parent chains have two links at most. The greenlet `c` is as deep as that, below `b` and `a`. -/
def chained : World :=
  Script.start ⟨[(Config.depthVariable, .text "2")]⟩ []
    [.create "a" "a" [] [] none none, .create "b" "b" [] [] (some "a") none,
      .create "c" "c" [] [] (some "b") none, .create "x" "x" [] [] none none] 500

/-- The greenlet `x` may go under `b`, but `c` is too deep for it. -/
theorem setParent_outcome_chained : (chained.run 24).Seated ∧ (chained.run 24).depthLimit = 2 ∧
    (∃ v, (chained.run 24).setParent 4 2 = (.ok (some 0), v) ∧ v.parent 4 = some 2 ∧
      ∀ x, x ≠ 4 → v.parent x = (chained.run 24).parent x) ∧
    ∃ v, (chained.run 24).setParent 4 3 = (.error (.nestingTooDeep 2), v) ∧
      ∀ x, v.parent x = (chained.run 24).parent x := by
  have hw : (chained.run 24).Seated := by
    unfold Seated
    decide +kernel
  have hr := greenlet?_of_thread (w := chained.run 24) (r := 4) (by decide +kernel)
  have hlimit : (chained.run 24).depthLimit = 2 := by decide +kernel
  have hl : (chained.run 24).Lineage 2 [1, 0] :=
    .link (by decide +kernel) (.link (by decide +kernel) (.root (by decide +kernel)))
  obtain ⟨hiff, hok, -⟩ := setParent_outcome hw hr 2
  have hmove : (chained.run 24).MayMove 4 2 := by
    refine ⟨by decide +kernel, by decide +kernel, by decide, fun n hn => ?_, fun n => ?_⟩
    · rw [hl.ancestors_eq] at hn
      exact absurd (List.mem_of_mem_take hn) (by decide)
    · rw [hl.ancestors_eq, hlimit]
      exact List.length_take_le' n [1, 0]
  obtain ⟨old, v, hs⟩ := hiff.mpr hmove
  obtain ⟨hold, hv, hother⟩ := hok old v hs
  have hzero : old = some 0 := hold.trans (by decide +kernel)
  refine ⟨hw, hlimit, ⟨v, hzero ▸ hs, hv, hother⟩, ?_⟩
  have hfail : (((chained.run 24).setParent 4 3).1.toOption).isNone = true := by decide +kernel
  rcases hres : (chained.run 24).setParent 4 3 with ⟨out, u⟩
  cases out with
  | ok old =>
    rw [hres] at hfail
    cases hfail
  | error e =>
    obtain ⟨he, hsame⟩ := (setParent_outcome hw hr 3).2.2 e u hres
    have hdeep : firstReason ((chained.run 24).moveReasons 4 3) = some (.nestingTooDeep 2) := by
      decide +kernel
    obtain rfl : e = .nestingTooDeep 2 := Option.some.inj (he.symm.trans hdeep)
    exact ⟨u, rfl, hsame⟩

end World

end Switchyard
