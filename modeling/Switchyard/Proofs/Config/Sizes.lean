import Mathlib.Data.Nat.Digits.Defs
import Mathlib.Data.Nat.Digits.Lemmas
import Switchyard.Config
import Switchyard.Proofs.Text.Trim

/-!
# Sizes from the environment

A size is read from a text of decimal digits, with a plus sign before them or without one and with
any blanks at the ends. A text of another form, or a number that is too large for a word, leaves
the size at its default.
-/

namespace Switchyard

namespace Text

variable {s : String} {n : Nat} {z : Int} {c : Char} {cs : List Char}

def IsDigit (c : Char) : Prop := '0' ≤ c ∧ c ≤ '9'

def value (ds : List Char) : Nat := Nat.ofDigits 10 (ds.reverse.map fun d => d.toNat - '0'.toNat)

/-- Decimal digits, with a plus sign or without one. -/
def Numeral (cs : List Char) (n : Nat) : Prop :=
  ∃ sign ds, cs = sign ++ ds ∧ (sign = [] ∨ sign = ['+']) ∧ ds ≠ [] ∧ (∀ d ∈ ds, IsDigit d) ∧
    n = value ds

theorem digitValue_eq (h : IsDigit c) : digitValue c = some (c.toNat - '0'.toNat) := by
  rw [digitValue, if_pos (by simpa [IsDigit] using h)]
  rfl

theorem digitValue_eq_none (h : ¬ IsDigit c) : digitValue c = none :=
  if_neg (by simpa [IsDigit] using h)

theorem value_cons (c : Char) (cs : List Char) :
    value (c :: cs) = (c.toNat - '0'.toNat) * 10 ^ cs.length + value cs := by
  rw [value, List.reverse_cons, List.map_append, Nat.ofDigits_append]
  simp [value, Nat.mul_comm, Nat.add_comm]

theorem digits_eq_some_iff (acc : Nat) (cs : List Char) (n : Nat) :
    digits acc cs = some n ↔ (∀ c ∈ cs, IsDigit c) ∧ n = acc * 10 ^ cs.length + value cs := by
  induction cs generalizing acc with
  | nil => simp [digits, value, eq_comm]
  | cons c cs ih =>
    rw [digits]
    by_cases hc : IsDigit c
    · rw [digitValue_eq hc, Option.bind_some, ih, value_cons, List.length_cons, List.forall_mem_cons]
      have hn : (10 * acc + (c.toNat - '0'.toNat)) * 10 ^ cs.length + value cs =
          acc * 10 ^ (cs.length + 1) + ((c.toNat - '0'.toNat) * 10 ^ cs.length + value cs) := by
        ring
      rw [hn]
      exact ⟨fun h => ⟨⟨hc, h.1⟩, h.2⟩, fun h => ⟨h.1.2, h.2⟩⟩
    · rw [digitValue_eq_none hc]
      simp [hc]

theorem natural_eq_some_iff :
    natural cs = some n ↔ cs ≠ [] ∧ (∀ c ∈ cs, IsDigit c) ∧ n = value cs := by
  cases cs with
  | nil => simp [natural]
  | cons c cs =>
    rw [natural, digits_eq_some_iff, Nat.zero_mul, Nat.zero_add]
    · simp
    · simp

theorem IsDigit.ne_plus (h : IsDigit c) : c ≠ '+' := by
  rintro rfl
  exact absurd h.1 (by decide)

theorem IsDigit.not_isBlank (h : IsDigit c) : isBlank c = false := by
  have hlow : 48 ≤ c.toNat := UInt32.le_iff_toNat_le.mp h.1
  have hhigh : c.toNat ≤ 57 := UInt32.le_iff_toNat_le.mp h.2
  simp only [isBlank, Bool.or_eq_false_iff, Bool.and_eq_false_iff, decide_eq_false_iff_not,
    beq_eq_false_iff_ne]
  omega

theorem Numeral.not_isBlank (h : Numeral cs n) : ∀ c ∈ cs, isBlank c = false := by
  obtain ⟨sign, ds, rfl, hsign, -, hds, -⟩ := h
  intro c hc
  rcases List.mem_append.mp hc with hc | hc
  · rcases hsign with rfl | rfl
    · cases hc
    · rw [List.mem_singleton.mp hc]
      rfl
  · exact (hds c hc).not_isBlank

theorem numeral_plus_iff : Numeral ('+' :: cs) n ↔ natural cs = some n := by
  rw [natural_eq_some_iff]
  constructor
  · rintro ⟨sign, ds, h, rfl | rfl, hne, hds, hn⟩
    · rw [List.nil_append] at h
      exact absurd rfl (hds '+' (h ▸ List.mem_cons_self)).ne_plus
    · obtain rfl : cs = ds := (List.cons.inj h).2
      exact ⟨hne, hds, hn⟩
  · rintro ⟨hne, hds, hn⟩
    exact ⟨['+'], cs, rfl, .inr rfl, hne, hds, hn⟩

theorem numeral_iff_of_ne (h : ∀ rest, cs ≠ '+' :: rest) : Numeral cs n ↔ natural cs = some n := by
  rw [natural_eq_some_iff]
  constructor
  · rintro ⟨sign, ds, rfl, rfl | rfl, hne, hds, hn⟩
    · exact ⟨hne, hds, hn⟩
    · exact absurd rfl (h ds)
  · rintro ⟨hne, hds, hn⟩
    exact ⟨[], cs, rfl, .inl rfl, hne, hds, hn⟩

theorem filter_word_eq_some_iff {m : Option Nat} :
    (m.map Int.ofNat).filter Config.word.mem = some z ↔ ∃ n, m = some n ∧ n < 2 ^ 64 ∧ z = n := by
  have hmem (n : Nat) : Config.word.mem (Int.ofNat n) = true ↔ n < 2 ^ 64 := by
    change (decide ((0 : Int) ≤ n) && decide ((n : Int) ≤ 2 ^ 64 - 1)) = true ↔ _
    rw [Bool.and_eq_true, decide_eq_true_eq, decide_eq_true_eq]
    omega
  cases m with
  | none => simp
  | some n =>
    rw [Option.map_some, Option.filter_eq_some_iff]
    constructor
    · rintro ⟨h, hz⟩
      obtain rfl : Int.ofNat n = z := Option.some.inj h
      exact ⟨n, rfl, (hmem n).mp hz, rfl⟩
    · rintro ⟨m, hm, hlt, rfl⟩
      obtain rfl : n = m := Option.some.inj hm
      exact ⟨rfl, (hmem n).mpr hlt⟩

/-- The reader of words takes the numerals that a word has room for. -/
theorem integer_word_eq_some_iff : integer Config.word s = some z ↔
    ∃ n, Numeral s.toList n ∧ n < 2 ^ 64 ∧ z = n := by
  unfold integer
  dsimp only
  split
  · next cs hs =>
    rw [filter_word_eq_some_iff, hs]
    simp only [numeral_plus_iff]
  · next cs hs =>
    have hminus (n : Nat) : ¬ Numeral ('-' :: cs) n := by
      rw [numeral_iff_of_ne (by simp), natural_eq_some_iff]
      exact fun h => absurd (h.2.1 '-' List.mem_cons_self).1 (by decide)
    rw [if_neg (by decide), hs]
    simp [hminus]
  · next hplus _ =>
    rw [filter_word_eq_some_iff]
    simp only [numeral_iff_of_ne hplus]

end Text

namespace Config

open Text

variable {s : String} {v : Setting} {default n : Nat} {z : Int}

/-- The text has a numeral between blanks for which a word has room. -/
def Spells (s : String) (n : Nat) : Prop := (∃ core, Padded core s ∧ Numeral core n) ∧ n < 2 ^ 64

/-- The size that a variable makes: the number that it spells, else the default. -/
inductive Sized (v : Setting) (default : Nat) : Nat → Prop where
  | spelled {s : String} {n : Nat} (hv : v = .text s) (h : Spells s n) : Sized v default n
  | silent (h : ∀ s n, v = .text s → ¬ Spells s n) : Sized v default default

/-- The configuration that the variables make. -/
structure FromVariables (env : Environment) (c : Config) : Prop where
  stackSize : Sized (env.get stackVariable) standard.stackSize c.stackSize
  maxNestingDepth : Sized (env.get depthVariable) standard.maxNestingDepth c.maxNestingDepth

theorem readWord_eq_some_iff :
    (Setting.text s).read? (integer word) = some z ↔ ∃ n, Spells s n ∧ z = n := by
  rw [Setting.read?, integer_word_eq_some_iff]
  constructor
  · exact fun ⟨n, hn, hlt, hz⟩ => ⟨n, ⟨⟨_, padded_trim s, hn⟩, hlt⟩, hz⟩
  · rintro ⟨n, ⟨⟨core, hs, hn⟩, hlt⟩, hz⟩
    rw [hs.trim_eq hn.not_isBlank, String.toList_ofList]
    exact ⟨n, hn, hlt, hz⟩

theorem sized_readD (v : Setting) (default : Nat) :
    Sized v default (v.readD (integer word) default).toNat := by
  rw [Setting.readD]
  cases h : v.read? (integer word) with
  | none =>
    refine .silent fun s n hv hs => ?_
    rw [hv, readWord_eq_some_iff.mpr ⟨n, hs, rfl⟩] at h
    cases h
  | some z =>
    cases v with
    | text s =>
      obtain ⟨n, hn, rfl⟩ := readWord_eq_some_iff.mp h
      exact .spelled rfl hn
    | unset => cases h
    | garbled => cases h

theorem fromVariables_ofEnvironment (env : Environment) : FromVariables env (ofEnvironment env) where
  stackSize := sized_readD _ _
  maxNestingDepth := sized_readD _ _

theorem Sized.unique {m n : Nat} (hm : Sized v default m) (hn : Sized v default n) : m = n := by
  cases hm with
  | spelled hs h =>
    cases hn with
    | spelled hs' h' =>
      have hread := readWord_eq_some_iff.mpr ⟨_, h, rfl⟩
      rw [Setting.text.inj (hs.symm.trans hs'), readWord_eq_some_iff.mpr ⟨_, h', rfl⟩] at hread
      exact Int.ofNat_inj.mp (Option.some.inj hread).symm
    | silent h' => exact absurd h (h' _ _ hs)
  | silent h =>
    cases hn with
    | spelled hs' h' => exact absurd h' (h _ _ hs')
    | silent _ => rfl

theorem fromVariables_iff {env : Environment} {c : Config} :
    FromVariables env c ↔ c = ofEnvironment env := by
  constructor
  · intro h
    obtain ⟨hs, hd⟩ := fromVariables_ofEnvironment env
    exact congrArg₂ Config.mk (h.stackSize.unique hs) (h.maxNestingDepth.unique hd)
  · rintro rfl
    exact fromVariables_ofEnvironment env

end Config

end Switchyard
