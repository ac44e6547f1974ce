import Mathlib.Data.List.Induction
import Mathlib.Data.List.Nodup
import Mathlib.Data.List.TakeDrop
import Mathlib.Logic.Function.Iterate
import Switchyard.Greenlet.Crowd

/-!
# What the source hands out

The words come in sequence and start over after the largest one. A call that draws the reserved word
draws again. Where no other thread gets in between, that second word is zero. Where others do, it is
any word, and the reserved one itself after a whole turn of the source.
-/

namespace Switchyard.IdSource

/-- The identifier for a place in the sequence of words. -/
def ident (n : Nat) : GreenletId := ⟨.ofNat n⟩

theorem ident_eq_iff {m n : Nat} : ident m = ident n ↔ m % UInt32.size = n % UInt32.size := by
  rw [ident, ident, GreenletId.mk.injEq, ← UInt32.toNat_inj, UInt32.toNat_ofNat',
    UInt32.toNat_ofNat']

theorem ident_eq_none_iff {n : Nat} : ident n = .none ↔ UInt32.size ∣ n + 1 := by
  rw [show GreenletId.none = ident (UInt32.size - 1) from rfl, ident_eq_iff]
  simp only [UInt32.size]
  omega

theorem ident_eq_zero_iff {n : Nat} : ident n = ⟨0⟩ ↔ UInt32.size ∣ n := by
  rw [show (⟨0⟩ : GreenletId) = ident 0 from rfl, ident_eq_iff]
  simp only [UInt32.size]
  omega

theorem ofNat_eq_reserved_iff {n : Nat} : UInt32.ofNat n = 0xFFFFFFFF ↔ UInt32.size ∣ n + 1 := by
  rw [← ident_eq_none_iff, ident, GreenletId.none, GreenletId.mk.injEq]

def drawn (n : Nat) : IdSource := (fun s => s.next.2)^[n] .start

/-- A call hands out the next identifier, and after the last one but the reserved it hands out the
first, which is zero. -/
theorem next_at {n : Nat} (hn : n < UInt32.size - 1) :
    next ⟨.ofNat (n + 1)⟩ = (ident ((n + 1) % (UInt32.size - 1)),
      ⟨.ofNat ((n + 1) % (UInt32.size - 1) + 1)⟩) := by
  by_cases h : n + 1 = UInt32.size - 1
  · rw [h, Nat.mod_self]
    rfl
  · have hw : UInt32.ofNat (n + 1) ≠ 0xFFFFFFFF := by
      rw [Ne, ofNat_eq_reserved_iff]
      simp only [UInt32.size] at hn h ⊢
      omega
    rw [Nat.mod_eq_of_lt (by omega), next, advance]
    simp only [beq_eq_false_iff_ne.mpr hw, Bool.false_eq_true, if_false]
    rw [UInt32.ofNat_add (n + 1) 1]
    rfl

theorem drawn_eq (n : Nat) : drawn n = ⟨.ofNat (n % (UInt32.size - 1) + 1)⟩ := by
  induction n with
  | zero => rfl
  | succ n ih =>
    rw [drawn, Function.iterate_succ_apply', ← drawn, ih, next_at (Nat.mod_lt _ (by decide)),
      Nat.mod_add_mod]

theorem next_drawn (n : Nat) : (drawn n).next.1 = ident ((n + 1) % (UInt32.size - 1)) := by
  rw [drawn_eq, next_at (Nat.mod_lt _ (by decide)), Nat.mod_add_mod]

namespace Crowd

variable {ts a b c : List ThreadId} {t u : ThreadId} {i : GreenletId} {n : Nat}

theorem after_concat (ts : List ThreadId) (t : ThreadId) : after (ts ++ [t]) = (after ts).draw t :=
  List.foldl_concat ..

theorem word_after (ts : List ThreadId) : (after ts).source.word = .ofNat (ts.length + 1) := by
  induction ts using List.reverseRecOn with
  | nil => rfl
  | append_singleton ts t ih =>
    rw [after_concat, draw, advance, ih, List.length_append, UInt32.ofNat_add (_ + _) 1]
    rfl

/-- The thread begins a call, after the others have made their advances, and draws the reserved
word. -/
def Misses (ts : List ThreadId) (t : ThreadId) : Prop :=
  UInt32.size ∣ ts.length + 2 ∧ (after ts).redrawing t = false

instance (ts : List ThreadId) (t : ThreadId) : Decidable (Misses ts t) :=
  inferInstanceAs (Decidable (_ ∧ _))

theorem reserved_after_iff : (after ts).source.word = 0xFFFFFFFF ↔ UInt32.size ∣ ts.length + 2 := by
  rw [word_after, ofNat_eq_reserved_iff]

theorem again_eq_decide (ts : List ThreadId) (t : ThreadId) :
    ((after ts).source.word == 0xFFFFFFFF && !(after ts).redrawing t) = decide (Misses ts t) := by
  rw [Bool.eq_iff_iff, decide_eq_true_eq, Misses, ← reserved_after_iff]
  simp

theorem redrawing_concat (ts : List ThreadId) (t : ThreadId) :
    (after (ts ++ [t])).redrawing =
      Function.update (after ts).redrawing t (decide (Misses ts t)) := by
  rw [after_concat, ← again_eq_decide]
  rfl

theorem ids_concat (ts : List ThreadId) (t : ThreadId) :
    ids (ts ++ [t]) = if Misses ts t then ids ts else ids ts ++ [ident (ts.length + 1)] := by
  rw [ids, after_concat, draw, advance]
  simp only [again_eq_decide, decide_eq_true_eq]
  split
  · rfl
  · rw [List.reverse_cons, word_after]
    rfl

theorem exists_last_concat {p : List ThreadId → Prop} :
    (∃ a b, ts ++ [u] = a ++ t :: b ∧ t ∉ b ∧ p a) ↔
      if t = u then p ts else ∃ a b, ts = a ++ t :: b ∧ t ∉ b ∧ p a := by
  constructor
  · rintro ⟨a, b, he, hb, hp⟩
    obtain rfl | ⟨b, v, rfl⟩ := List.eq_nil_or_concat' b
    · obtain ⟨rfl, hu⟩ := List.append_inj' he rfl
      rw [if_pos (List.singleton_inj.mp hu).symm]
      exact hp
    · rw [← List.cons_append, ← List.append_assoc] at he
      obtain ⟨rfl, hu⟩ := List.append_inj' he rfl
      rw [List.singleton_inj.mp hu, if_neg (by rintro rfl; simp at hb)]
      exact ⟨a, b, rfl, fun h => hb (List.mem_append_left _ h), hp⟩
  · intro h
    split at h
    · next hu => exact ⟨ts, [], by rw [hu], List.not_mem_nil, h⟩
    · next hu =>
      obtain ⟨a, b, rfl, hb, hp⟩ := h
      exact ⟨a, b ++ [u], by simp, by simp [hb, hu], hp⟩

theorem redrawing_iff : (after ts).redrawing t = true ↔
    ∃ a b, ts = a ++ t :: b ∧ t ∉ b ∧ Misses a t := by
  induction ts using List.reverseRecOn with
  | nil => simp [after]
  | append_singleton ts u ih =>
    rw [redrawing_concat, exists_last_concat, ← ih, Function.update_apply]
    split
    · next hu => rw [hu, decide_eq_true_eq]
    · rfl

theorem mem_ids_iff : i ∈ ids ts ↔
    ∃ a t, a ++ [t] <+: ts ∧ ¬ Misses a t ∧ i = ident (a.length + 1) := by
  induction ts using List.reverseRecOn with
  | nil => simp [ids, after]
  | append_singleton ts u ih =>
    have hsplit : (∃ a t, a ++ [t] <+: ts ++ [u] ∧ ¬ Misses a t ∧ i = ident (a.length + 1)) ↔
        (¬ Misses ts u ∧ i = ident (ts.length + 1)) ∨ i ∈ ids ts := by
      simp only [List.prefix_concat_iff, ih]
      simp [or_and_right, exists_or]
    rw [hsplit]
    by_cases h : Misses ts u
    · simp [ids_concat, h]
    · simp [ids_concat, h, or_comm]

/-- The word zero is not reserved, and whoever draws it keeps it. -/
theorem zero_mem_ids_iff : (⟨0⟩ : GreenletId) ∈ ids ts ↔ UInt32.size ≤ ts.length := by
  rw [mem_ids_iff]
  constructor
  · rintro ⟨a, t, hp, -, he⟩
    have hd := Nat.le_of_dvd (Nat.succ_pos _) (ident_eq_zero_iff.mp he.symm)
    have hl := hp.length_le
    rw [List.length_append, List.length_singleton] at hl
    omega
  · intro h
    have hk : UInt32.size - 1 < ts.length := Nat.lt_of_lt_of_le (by decide) h
    refine ⟨ts.take (UInt32.size - 1), ts[UInt32.size - 1], ?_, ?_, ?_⟩
    · rw [List.take_concat_get']
      exact List.take_prefix _ _
    · rintro ⟨hd, -⟩
      rw [List.length_take_of_le (Nat.le_of_lt hk)] at hd
      revert hd
      decide
    · rw [List.length_take_of_le (Nat.le_of_lt hk), eq_comm, ident_eq_zero_iff]
      decide

/-- The reserved word is handed out if a whole number of turns passes within one call. -/
theorem none_mem_ids_iff : GreenletId.none ∈ ids ts ↔
    ∃ a t b c, ts = a ++ t :: (b ++ t :: c) ∧ Misses a t ∧ t ∉ b ∧
      UInt32.size ∣ b.length + 1 := by
  -- The source is at the reserved word again after whole turns, those of the other threads counted.
  have hturn {a b : List ThreadId} {t : ThreadId} (h : Misses a t) :
      UInt32.size ∣ (a ++ t :: b).length + 2 ↔ UInt32.size ∣ b.length + 1 := by
    have hl : (a ++ t :: b).length + 2 = a.length + 2 + (b.length + 1) := by simp; omega
    rw [hl, Nat.dvd_add_right h.1]
  rw [mem_ids_iff]
  constructor
  · rintro ⟨d, t, ⟨c, rfl⟩, hd, he⟩
    have hw := ident_eq_none_iff.mp he.symm
    have hr : (after d).redrawing t = true := by simpa [Misses, hw] using hd
    obtain ⟨a, b, rfl, hb, ha⟩ := redrawing_iff.mp hr
    exact ⟨a, t, b, c, by simp, ha, hb, (hturn ha).mp hw⟩
  · rintro ⟨a, t, b, c, rfl, ha, hb, hw⟩
    have hr : (after (a ++ t :: b)).redrawing t = true := redrawing_iff.mpr ⟨a, b, rfl, hb, ha⟩
    refine ⟨a ++ t :: b, t, ⟨c, by simp⟩, ?_, ?_⟩
    · simp [Misses, hr]
    · exact (ident_eq_none_iff.mpr ((hturn ha).mpr hw)).symm

theorem ids_prefix (a b : List ThreadId) : ids a <+: ids (a ++ b) := by
  induction b using List.reverseRecOn with
  | nil => simp
  | append_singleton b t ih =>
    rw [← List.append_assoc, ids_concat]
    split
    · exact ih
    · exact ih.trans (List.prefix_append ..)

theorem ids_of_short (h : ts.length ≤ UInt32.size - 2) :
    ids ts = (List.range ts.length).map fun k => ident (k + 1) := by
  induction ts using List.reverseRecOn with
  | nil => rfl
  | append_singleton ts t ih =>
    rw [List.length_append, List.length_singleton] at h ⊢
    have hm : ¬ Misses ts t := by
      rintro ⟨hd, -⟩
      have hle := Nat.le_of_dvd (Nat.succ_pos _) hd
      simp only [UInt32.size] at h hle
      omega
    rw [ids_concat, if_neg hm, ih (Nat.le_of_succ_le h), List.range_succ, List.map_append]
    rfl

theorem take_ids (ts : List ThreadId) : (ids ts).take (UInt32.size - 2) =
    (List.range (min (UInt32.size - 2) ts.length)).map fun k => ident (k + 1) := by
  obtain h | h := Nat.le_total ts.length (UInt32.size - 2)
  · rw [Nat.min_eq_right h, ids_of_short h, List.take_of_length_le (by simpa using h)]
  · have hl : (ts.take (UInt32.size - 2)).length = UInt32.size - 2 := List.length_take_of_le h
    have hs := ids_of_short (Nat.le_of_eq hl)
    have hp := ids_prefix (ts.take (UInt32.size - 2)) (ts.drop (UInt32.size - 2))
    rw [List.take_append_drop, hs, hl, List.prefix_iff_eq_take, List.length_map,
      List.length_range] at hp
    rw [Nat.min_eq_left h, hp]

theorem nodup_take_ids (ts : List ThreadId) : ((ids ts).take (UInt32.size - 2)).Nodup := by
  rw [take_ids]
  refine List.nodup_range.map_on fun k hk l hl he => ?_
  rw [List.mem_range] at hk hl
  have hmod := ident_eq_iff.mp he
  simp only [UInt32.size] at hk hl hmod
  omega

/-- The first turn of the source is clear of the reserved identifiers, and no longer run is. -/
theorem ids_clear_iff : (∀ i ∈ ids ts, i ≠ .none ∧ i ≠ ⟨0⟩) ↔ ts.length < UInt32.size := by
  constructor
  · intro h
    by_contra hl
    exact (h _ (zero_mem_ids_iff.mpr (Nat.le_of_not_lt hl))).2 rfl
  · intro h i hi
    constructor
    · rintro rfl
      obtain ⟨a, t, b, c, rfl, ⟨ha, -⟩, -, hb⟩ := none_mem_ids_iff.mp hi
      have hla := Nat.le_of_dvd (Nat.succ_pos _) ha
      have hlb := Nat.le_of_dvd (Nat.succ_pos _) hb
      simp only [List.length_append, List.length_cons] at h
      omega
    · rintro rfl
      exact Nat.not_lt_of_le (zero_mem_ids_iff.mp hi) h

/-- Calls by themselves go round through all words but the reserved one. However the advances of
several threads fall, the identifiers of the first turn are in sequence and differ. Zero is handed
out in the next turn, and the reserved word to a thread whose call lasts for whole turns. -/
theorem ids_handed_out (n : Nat) (ts : List ThreadId) :
    (drawn n).next.1 = ident ((n + 1) % (UInt32.size - 1)) ∧
      (ids ts).take (UInt32.size - 2) =
        (List.range (min (UInt32.size - 2) ts.length)).map (fun k => ident (k + 1)) ∧
      ((ids ts).take (UInt32.size - 2)).Nodup ∧
      ((∀ i ∈ ids ts, i ≠ .none ∧ i ≠ ⟨0⟩) ↔ ts.length < UInt32.size) ∧
      (⟨0⟩ ∈ ids ts ↔ UInt32.size ≤ ts.length) ∧
      (.none ∈ ids ts ↔ ∃ a t b c, ts = a ++ t :: (b ++ t :: c) ∧ Misses a t ∧ t ∉ b ∧
        UInt32.size ∣ b.length + 1) :=
  ⟨next_drawn n, take_ids ts, nodup_take_ids ts, ids_clear_iff, zero_mem_ids_iff,
    none_mem_ids_iff⟩

/-- A thread by itself is handed zero after all words but the reserved one. A thread whose call
lasts while another goes through a whole turn of the source is handed the reserved word. -/
theorem reserved_handed_out :
    (drawn (UInt32.size - 2)).next.1 = ⟨0⟩ ∧ ⟨0⟩ ∈ ids (.replicate UInt32.size 1) ∧
      .none ∈ ids
        (.replicate (UInt32.size - 2) 1 ++ 2 :: (.replicate (UInt32.size - 1) 1 ++ [2])) := by
  refine ⟨?_, ?_, ?_⟩
  · rw [next_drawn]
    rfl
  · exact zero_mem_ids_iff.mpr (Nat.le_of_eq List.length_replicate.symm)
  · refine none_mem_ids_iff.mpr ⟨_, _, _, [], rfl, ⟨?_, ?_⟩, ?_, ?_⟩
    · rw [List.length_replicate]
      decide
    · rw [Bool.eq_false_iff, Ne, redrawing_iff]
      rintro ⟨a, b, he, -, -⟩
      have hm : 2 ∈ List.replicate (UInt32.size - 2) 1 := by rw [he]; simp
      exact absurd (List.eq_of_mem_replicate hm) (by decide)
    · exact fun hm => absurd (List.eq_of_mem_replicate hm) (by decide)
    · rw [List.length_replicate]
      decide

end Crowd

end Switchyard.IdSource
