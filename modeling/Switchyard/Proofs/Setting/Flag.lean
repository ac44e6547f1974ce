import Switchyard.Proofs.Text.Trim
import Switchyard.Setting

/-!
# Which octets switch a flag on

Blanks at the ends do not count, and neither does the case. Octets that are no text leave the flag
at its default, as an unset variable does.
-/

namespace Switchyard.Text

theorem ofOctets_eq_some {bytes : ByteArray} {s : String} :
    ofOctets bytes = some s ↔ s.toUTF8 = bytes := by
  unfold ofOctets String.fromUTF8?
  constructor
  · intro h
    split at h
    · cases h
      rfl
    · cases h
  · rintro rfl
    exact dif_pos s.isValidUTF8

end Switchyard.Text

namespace Switchyard.Setting

open Text

/-- A small form of a text. Capitals within ASCII become small letters. A character outside ASCII
may become anything, as long as a part of it occurs in no on-word; of the characters that Unicode
maps into ASCII, one becomes `k` and one becomes `i` with a dot above. -/
inductive Lowers : List Char → List Char → Prop where
  | nil : Lowers [] []
  | ascii {c : Char} {cs ds : List Char} (h : c.toNat < 128) (rest : Lowers cs ds) :
      Lowers (c :: cs) (c.toLower :: ds)
  | other {c : Char} {cs ds piece : List Char} (h : 128 ≤ c.toNat)
      (strange : ∃ d ∈ piece, ∀ word ∈ onWords, d ∉ word.toList) (rest : Lowers cs ds) :
      Lowers (c :: cs) (piece ++ ds)

theorem onWords_letters : ∀ word ∈ onWords, ∀ c ∈ word.toList,
    c.toNat < 128 ∧ isBlank c = false := by
  simp [onWords, isBlank]

namespace Lowers

theorem map_toLower (cs : List Char) : Lowers cs (cs.map Char.toLower) := by
  induction cs with
  | nil => exact .nil
  | cons c cs ih =>
    by_cases h : c.toNat < 128
    · exact .ascii h ih
    · have hc : c.toLower = c := toLower_of_not_isUpper
        (Bool.eq_false_iff.mpr fun hu => h (isAscii_of_isUpper hu))
      rw [List.map_cons, hc]
      refine @Lowers.other c cs _ [c] (not_lt.mp h) ⟨c, by simp, fun word hw hm => ?_⟩ ih
      exact h (onWords_letters word hw c hm).1

theorem eq_map_toLower {cs ds : List Char} (h : Lowers cs ds) {word : String}
    (hw : word ∈ onWords) (hd : ∀ d ∈ ds, d ∈ word.toList) : ds = cs.map Char.toLower := by
  induction h with
  | nil => rfl
  | ascii _ _ ih => rw [List.map_cons, ih fun d hm => hd d (List.mem_cons_of_mem _ hm)]
  | other _ strange _ _ =>
    obtain ⟨d, hm, hno⟩ := strange
    exact absurd (hd d (List.mem_append_left _ hm)) (hno word hw)

end Lowers

/-- A text switches a flag on exactly if it is a small form of an on-word between blanks. -/
theorem flag_text (s : String) (default : Bool) :
    (text s).flag default = true ↔
      ∃ left core right small, s.toList = left ++ core ++ right ∧
        (∀ c ∈ left, isBlank c = true) ∧ (∀ c ∈ right, isBlank c = true) ∧
        Lowers core small ∧ String.ofList small ∈ onWords := by
  have hflag : (text s).flag default = true ↔
      String.ofList ((trimList s.toList).map Char.toLower) ∈ onWords := by
    rw [flag, List.contains_iff_mem, ← String.ofList_toList (s := lower _), lower,
      String.toList_map, trim, String.toList_ofList]
  rw [hflag]
  constructor
  · intro h
    obtain ⟨left, right, hs, hl, hr⟩ := exists_append_trimList s.toList
    exact ⟨left, _, right, _, hs, hl, hr, .map_toLower _, h⟩
  · rintro ⟨left, core, right, small, hs, hl, hr, hsmall, hon⟩
    have hmap : small = core.map Char.toLower :=
      hsmall.eq_map_toLower hon fun d hd => by simpa using hd
    have hcore : ∀ c ∈ core, isBlank c = false := not_isBlank_of_toLower fun d hd =>
      (onWords_letters _ hon d (by rwa [String.toList_ofList, hmap])).2
    rwa [hs, trimList_append hl hr hcore, ← hmap]

/-- A set flag is on if its octets are an on-word, blanks at the ends and the case aside. Octets
that are no text count as unset: there, and only there, the default decides. -/
theorem flag_set (env : Environment) (name : String) (bytes : ByteArray) (default : Bool) :
    ((env.set name .unset).get name).flag default = default ∧
    (((env.set name (ofOctets bytes)).get name).flag default = true ↔
      (∃ (s : String) (left core right small : List Char),
        s.toUTF8 = bytes ∧ s.toList = left ++ core ++ right ∧
        (∀ c ∈ left, isBlank c = true) ∧ (∀ c ∈ right, isBlank c = true) ∧
        Lowers core small ∧ String.ofList small ∈ onWords) ∨
      (default = true ∧ ∀ s : String, s.toUTF8 ≠ bytes)) := by
  refine ⟨by rw [env.get_set_self]; rfl, ?_⟩
  rw [env.get_set_self, ofOctets]
  cases h : Text.ofOctets bytes with
  | some s =>
    have hs := ofOctets_eq_some.mp h
    rw [flag_text]
    constructor
    · rintro ⟨left, core, right, small, hon⟩
      exact .inl ⟨s, left, core, right, small, hs, hon⟩
    · rintro (⟨t, left, core, right, small, ht, hon⟩ | ⟨-, hno⟩)
      · have hst : t = s := String.toByteArray_inj.mp (ht.trans hs.symm)
        exact ⟨left, core, right, small, hst ▸ hon⟩
      · exact absurd hs (hno s)
  | none =>
    have hno (s : String) : s.toUTF8 ≠ bytes := fun hs => by
      rw [ofOctets_eq_some.mpr hs] at h
      cases h
    constructor
    · exact fun hd => .inr ⟨hd, hno⟩
    · rintro (⟨s, -, -, -, -, hs, -⟩ | ⟨hd, -⟩)
      · exact absurd hs (hno s)
      · exact hd

-- No text has an octet `0xFF`, so a variable set to it does not switch the flag off.
example : (ofOctets ⟨#[0xFF]⟩).flag true = true := by decide

end Switchyard.Setting
