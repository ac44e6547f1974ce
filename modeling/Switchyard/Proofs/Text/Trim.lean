import Mathlib.Data.List.TakeWhile
import Switchyard.Text.Blank

/-!
# Texts between blanks

A reader of settings looks at a text without the blanks at its ends. Where the part that it looks
for has no blank of its own, that part is found exactly in the texts that have it between blanks.
-/

namespace Switchyard.Text

variable {s : String} {core : List Char}

/-- The text is `core` with blanks before and after it. -/
def Padded (core : List Char) (s : String) : Prop :=
  ∃ left right, s.toList = left ++ core ++ right ∧
    (∀ c ∈ left, isBlank c = true) ∧ ∀ c ∈ right, isBlank c = true

theorem toNat_of_isUpper {c : Char} (h : c.isUpper = true) : 65 ≤ c.toNat ∧ c.toNat ≤ 90 := by
  delta Char.isUpper at h
  have h := of_decide_eq_true h
  exact ⟨UInt32.le_iff_toNat_le.mp h.1, UInt32.le_iff_toNat_le.mp h.2⟩

theorem isAscii_of_isUpper {c : Char} (h : c.isUpper = true) : c.toNat < 128 :=
  lt_of_le_of_lt (toNat_of_isUpper h).2 (by decide)

theorem toLower_of_not_isUpper {c : Char} (h : c.isUpper = false) : c.toLower = c := by
  delta Char.isUpper at h
  exact dif_neg (of_decide_eq_false h)

theorem toLower_of_isBlank {c : Char} (h : isBlank c = true) : c.toLower = c := by
  refine toLower_of_not_isUpper (Bool.eq_false_iff.mpr fun hu => ?_)
  have hc := toNat_of_isUpper hu
  simp only [isBlank, Bool.or_eq_true, Bool.and_eq_true, decide_eq_true_eq, beq_iff_eq] at h
  omega

/-- A text is its trimmed part between blanks. -/
theorem exists_append_trimList (cs : List Char) :
    ∃ left right, cs = left ++ trimList cs ++ right ∧
      (∀ c ∈ left, isBlank c = true) ∧ ∀ c ∈ right, isBlank c = true := by
  let rest := (cs.dropWhile isBlank).reverse
  refine ⟨cs.takeWhile isBlank, (rest.takeWhile isBlank).reverse, ?_, ?_, ?_⟩
  · have h : trimList cs ++ (rest.takeWhile isBlank).reverse = cs.dropWhile isBlank := by
      rw [trimList, ← List.reverse_append, List.takeWhile_append_dropWhile, List.reverse_reverse]
    rw [List.append_assoc, h, List.takeWhile_append_dropWhile]
  · exact fun c => List.mem_takeWhile_imp
  · exact fun c hc => List.mem_takeWhile_imp (List.mem_reverse.mp hc)

/-- What neither begins nor ends with a blank is the trimmed part of every text that has it
between blanks. -/
theorem trimList_append {left core right : List Char} (hl : ∀ c ∈ left, isBlank c = true)
    (hr : ∀ c ∈ right, isBlank c = true) (hc : ∀ c ∈ core, isBlank c = false) :
    trimList (left ++ core ++ right) = core := by
  cases core with
  | nil =>
    have h : (left ++ [] ++ right).dropWhile isBlank = [] :=
      List.dropWhile_eq_nil_iff.mpr fun c hm => by
        rcases List.mem_append.mp (by simpa using hm) with h | h
        · exact hl c h
        · exact hr c h
    rw [trimList, h]
    rfl
  | cons c core =>
    have hfront : ((c :: core) ++ right).dropWhile isBlank = c :: core ++ right :=
      List.dropWhile_cons_of_neg (by simp [hc c])
    have hback : (c :: core).reverse.dropWhile isBlank = (c :: core).reverse := by
      rw [List.dropWhile_eq_self_iff]
      intro hlen
      rw [hc _ (List.mem_reverse.mp (List.getElem_mem hlen))]
      exact Bool.false_ne_true
    rw [trimList, List.append_assoc, List.dropWhile_append_of_pos hl, hfront, List.reverse_append,
      List.dropWhile_append_of_pos fun c hm => hr c (List.mem_reverse.mp hm), hback,
      List.reverse_reverse]

theorem not_isBlank_of_toLower (h : ∀ c ∈ core.map Char.toLower, isBlank c = false) :
    ∀ c ∈ core, isBlank c = false := by
  intro c hc
  by_contra hb
  rw [Bool.not_eq_false] at hb
  have hl := h _ (List.mem_map_of_mem hc)
  rw [toLower_of_isBlank hb, hb] at hl
  cases hl

theorem padded_trim (s : String) : Padded (trim s).toList s := by
  obtain ⟨left, right, h, hl, hr⟩ := exists_append_trimList s.toList
  rw [trim, String.toList_ofList]
  exact ⟨left, right, h, hl, hr⟩

theorem Padded.trim_eq (h : Padded core s) (hc : ∀ c ∈ core, isBlank c = false) :
    trim s = String.ofList core := by
  obtain ⟨left, right, hs, hl, hr⟩ := h
  rw [trim, hs, trimList_append hl hr hc]

theorem Padded.of_trim (h : Padded core (trim s)) : Padded core s := by
  obtain ⟨left, right, hs, hl, hr⟩ := padded_trim s
  obtain ⟨left', right', ht, hl', hr'⟩ := h
  refine ⟨left ++ left', right' ++ right, ?_, ?_, ?_⟩
  · rw [hs, ht]
    simp only [List.append_assoc]
  · exact fun c hc => (List.mem_append.mp hc).elim (hl c) (hl' c)
  · exact fun c hc => (List.mem_append.mp hc).elim (hr' c) (hr c)

end Switchyard.Text
