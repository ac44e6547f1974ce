import Switchyard.Text.Blank
import Switchyard.Text.Number
import Switchyard.Text.Floating
import Switchyard.Text.Octets

/-!
# Environment settings

A variable is unset, set to octets that are no text, or set to a text. A typed reader trims the
text first; what it cannot read counts as absent.
-/

namespace Switchyard

inductive Setting where
  | unset
  | garbled
  | text (s : String)
  deriving DecidableEq, Repr, Inhabited

namespace Setting

def ofOctets (bytes : ByteArray) : Setting :=
  match Text.ofOctets bytes with
  | some s => .text s
  | none => .garbled

/-- The words that switch a flag on. -/
def onWords : List String := ["1", "true", "yes", "on"]

/-- A flag that is set to a text is on exactly for the on-words, in any case, blanks around them
aside. No character outside ASCII has a small form that occurs in an on-word. -/
def flag (default : Bool) : Setting → Bool
  | .text s => onWords.contains (Text.lower (Text.trim s))
  | _ => default

def read? (reader : String → Option α) : Setting → Option α
  | .text s => reader (Text.trim s)
  | _ => none

def readD (reader : String → Option α) (default : α) (s : Setting) : α :=
  (s.read? reader).getD default

end Setting

/-- The variables of a process; the first entry of a name counts. -/
structure Environment where
  entries : List (String × Setting)
  deriving Inhabited

namespace Environment

def empty : Environment := ⟨[]⟩

def get (env : Environment) (name : String) : Setting :=
  (env.entries.lookup name).getD .unset

def set (env : Environment) (name : String) (s : Setting) : Environment :=
  ⟨(name, s) :: env.entries⟩

theorem get_set_self (env : Environment) (name : String) (s : Setting) :
    (env.set name s).get name = s := by
  simp [set, get]

theorem get_set_of_ne (env : Environment) {name other : String} (s : Setting)
    (h : other ≠ name) : (env.set name s).get other = env.get other := by
  simp [set, get, List.lookup_cons, beq_false_of_ne h]

end Environment

end Switchyard
