/-!
# Switch payloads

Positional values in order, and values under distinct keywords in the order of their first use.
-/

namespace Switchyard

structure Args (α : Type) where
  positional : List α
  keywords : List (String × α)
  deriving Inhabited, Repr, DecidableEq

namespace Args

variable {α : Type}

def empty : Args α := ⟨[], []⟩

def push (a : Args α) (x : α) : Args α := { a with positional := a.positional ++ [x] }

/-- Put `x` under `name`: in the place of an earlier value, or at the end. -/
def assign (name : String) (x : α) : List (String × α) → List (String × α)
  | [] => [(name, x)]
  | (n, y) :: rest => if n = name then (n, x) :: rest else (n, y) :: assign name x rest

def setKeyword (a : Args α) (name : String) (x : α) : Args α :=
  { a with keywords := assign name x a.keywords }

def size (a : Args α) : Nat := a.positional.length + a.keywords.length

def isEmpty (a : Args α) : Bool := a.size == 0

def get? (a : Args α) (i : Nat) : Option α := a.positional[i]?

def keyword? (a : Args α) (name : String) : Option α := a.keywords.lookup name

def values (a : Args α) : List α := a.positional ++ a.keywords.map Prod.snd

theorem lookup_assign_self (name : String) (x : α) (kw : List (String × α)) :
    (assign name x kw).lookup name = some x := by
  induction kw with
  | nil => simp [assign]
  | cons p rest ih =>
    obtain ⟨n, y⟩ := p
    by_cases h : n = name
    · simp [assign, h]
    · simp [assign, h, List.lookup_cons, beq_false_of_ne (Ne.symm h), ih]

theorem keyword?_setKeyword_self (a : Args α) (name : String) (x : α) :
    (a.setKeyword name x).keyword? name = some x :=
  lookup_assign_self name x a.keywords

end Args

end Switchyard
