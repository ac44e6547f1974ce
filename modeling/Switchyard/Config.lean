import Switchyard.Setting

/-!
# Process configuration

Stack size and the bound on parent chains, fixed once for a process: by an explicit choice or by
the first look, whichever comes first.
-/

namespace Switchyard

structure Config where
  stackSize : Nat
  maxNestingDepth : Nat
  deriving DecidableEq, Repr, Inhabited

namespace Config

def standard : Config := ⟨1048576, 1048576⟩

def stackVariable : String := "GREENLET_STACK_SIZE"
def depthVariable : String := "GREENLET_MAX_NESTING_DEPTH"

def word : Text.Range := .unsigned 64

private def size (env : Environment) (name : String) (default : Nat) : Nat :=
  ((env.get name).readD (Text.integer word) default).toNat

def ofEnvironment (env : Environment) : Config where
  stackSize := size env stackVariable standard.stackSize
  maxNestingDepth := size env depthVariable standard.maxNestingDepth

inductive Fault where
  | stackTooSmall | stackTooLarge | noDepth
  deriving DecidableEq, Repr

def Fault.reason : Fault → String
  | stackTooSmall => "stack_size must be >= 16KB"
  | stackTooLarge => "stack_size must be <= 1GB"
  | noDepth => "max_nesting_depth must be > 0"

/-- The first rule that the configuration breaks. -/
def fault? (c : Config) : Option Fault :=
  if c.stackSize < 16 * 1024 then some .stackTooSmall
  else if c.stackSize > 1024 * 1024 * 1024 then some .stackTooLarge
  else if c.maxNestingDepth = 0 then some .noDepth
  else none

def isValid (c : Config) : Bool := c.fault?.isNone

def text (c : Config) : String :=
  "RuntimeConfig \x7b stack_size: " ++ toString c.stackSize ++
    ", max_nesting_depth: " ++ toString c.maxNestingDepth ++ " \x7d"

/-- The configuration a process takes when it never chose one. -/
def fallback (env : Environment) : Config :=
  let c := ofEnvironment env
  if c.isValid then c else standard

theorem fallback_isValid (env : Environment) : (fallback env).isValid = true := by
  unfold fallback
  simp only
  split
  · assumption
  · rfl

end Config

abbrev ConfigCell := Option Config

namespace ConfigCell

inductive Refusal where
  | invalid (f : Config.Fault)
  | alreadyFixed
  deriving DecidableEq, Repr

def fix (cell : ConfigCell) (c : Config) : Except Refusal ConfigCell :=
  match c.fault?, cell with
  | some f, _ => .error (.invalid f)
  | none, some _ => .error .alreadyFixed
  | none, none => .ok (some c)

/-- The fixed configuration; a process that has none takes its fallback for good. -/
def get (env : Environment) (cell : ConfigCell) : Config × ConfigCell :=
  let c := cell.getD (Config.fallback env)
  (c, some c)

end ConfigCell

end Switchyard
