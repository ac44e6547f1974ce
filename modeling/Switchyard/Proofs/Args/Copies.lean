import Mathlib
import Switchyard.Script.OnPayloads

/-!
# Copies of values

A payload gives a copy of a value away when it is asked for the kind that the value has, and no
other kind. What a copy shows is the value itself: values of one kind have the same copy only when
they are the same.
-/

namespace Switchyard

namespace Text

theorem hexDigit_inj : ∀ a < 16, ∀ b < 16, hexDigit a = hexDigit b → a = b := by decide

theorem hexDigits_inj {k m n : Nat} {acc acc' : List Char}
    (hlen : acc.length = acc'.length) (h : hexDigits k m acc = hexDigits k n acc') :
    m % 16 ^ k = n % 16 ^ k ∧ acc = acc' := by
  induction k generalizing m n acc acc' with
  | zero => exact ⟨by rw [Nat.pow_zero, Nat.mod_one, Nat.mod_one], h⟩
  | succ k ih =>
    obtain ⟨hdiv, hacc⟩ := ih (by simpa using hlen) h
    obtain ⟨hd, hacc⟩ := List.cons.inj hacc
    have hmod := hexDigit_inj _ (Nat.mod_lt _ (by decide)) _ (Nat.mod_lt _ (by decide)) hd
    refine ⟨?_, hacc⟩
    rw [Nat.pow_succ', Nat.mod_mul, Nat.mod_mul, hdiv, hmod]

theorem eq_of_hex_eq {width m n : Nat} (hm : m < 16 ^ width) (hn : n < 16 ^ width)
    (h : hex width m = hex width n) : m = n := by
  have h := (hexDigits_inj rfl (String.ofList_injective h)).1
  rwa [Nat.mod_eq_of_lt hm, Nat.mod_eq_of_lt hn] at h

end Text

/-- Values of the kind can be copied. -/
def Kind.copies : Kind → Bool
  | canary | phoenix | greenlet | mainGreenlet => false
  | _ => true

theorem FailureKind.name_inj {a b : FailureKind} (h : a.name = b.name) : a = b := by
  cases a <;> cases b <;> first | rfl | exact absurd h (by decide)

namespace Value

variable {u v : Value}

/-- What a copy shows of the value. Numbers are written in decimals, floating ones by their bits;
of the value that says nothing, a copy shows that it is there. -/
def content? : Value → Option Datum
  | unit => some (.bool true)
  | bool b => some (.bool b)
  | i32 n => some (.text (toString n.toInt))
  | u32 n => some (.text (toString (n.toNat : Int)))
  | i64 n => some (.text (toString n.toInt))
  | u64 n => some (.text (toString (n.toNat : Int)))
  | f64 bits => some (.text (Text.hex 16 bits.toNat))
  | str s | literal s => some (.text s)
  | failure f => some (.list [.text f.kind.name, .text f.message])
  | canary _ | phoenix .. | greenlet _ => none

theorem isSome_content? (v : Value) : v.content?.isSome = v.kind.copies := by
  cases v with
  | greenlet g =>
    simp only [content?, kind]
    split <;> rfl
  | _ => rfl

theorem content?_ne_null (v : Value) : v.content? ≠ some .null := by
  cases v <;> exact fun h => by cases h

theorem copy_kind (v : Value) : v.copy v.kind = v.content?.getD .null := by
  unfold copy
  rw [if_neg (by simp)]
  cases v <;> rfl

theorem copy_eq (k : Kind) (v : Value) :
    v.copy k = if v.kind = k then v.content?.getD .null else .null := by
  by_cases h : v.kind = k
  · rw [if_pos h, ← h, copy_kind]
  · unfold copy
    rw [if_neg h, if_pos (bne_iff_ne.mpr h)]

theorem eq_of_content? (hk : u.kind = v.kind) (hc : u.kind.copies = true)
    (h : u.content? = v.content?) : u = v := by
  have hs : u.content?.isSome = true := (isSome_content? u).trans hc
  have int {m n : Int} (h : some (Datum.text (toString m)) = some (.text (toString n))) : m = n :=
    Int.repr_inj.mp (Datum.text.inj (Option.some.inj h))
  -- Only pairs of values from the same constructor are of one kind.
  cases u <;> cases v <;> first
    | cases hs; done
    | cases hk
    | cases h
  case unit.unit => rfl
  case bool.bool | str.str | literal.literal => cases h; rfl
  case i32.i32 m n => rw [Int32.toInt_inj.mp (int h)]
  case i64.i64 m n => rw [Int64.toInt_inj.mp (int h)]
  case u32.u32 m n => rw [UInt32.toNat_inj.mp (Int.ofNat_inj.mp (int h))]
  case u64.u64 m n => rw [UInt64.toNat_inj.mp (Int.ofNat_inj.mp (int h))]
  case f64.f64 m n =>
    have hb := Text.eq_of_hex_eq m.toNat_lt n.toNat_lt (Datum.text.inj (Option.some.inj h))
    rw [UInt64.toNat_inj.mp hb]
  case failure.failure f g =>
    obtain ⟨fk, fm⟩ := f
    obtain ⟨gk, gm⟩ := g
    simp only [content?, Option.some.injEq, Datum.list.injEq, List.cons.injEq,
      Datum.text.injEq, and_true] at h
    obtain ⟨hname, rfl⟩ := h
    rw [FailureKind.name_inj hname]

end Value

end Switchyard
