import Switchyard.Failure

/-!
# Configuration sessions

Commands on a draft configuration and on the process's fixed one, with the slot that keeps the
first failure.
-/

namespace Switchyard

/-- A failure with its text and whether it is the exit marker. -/
def Failure.detail (f : Failure) : Datum :=
  .list [.text f.kind.name, .text f.message, .text f.text, .bool f.isExit]

namespace Config.Session

inductive Command where
  | fresh
  | ofEnvironment
  | stackSize (n : Nat)
  | depth (n : Nat)
  | validate
  | fix
  | isStandard
  | debug
  | get
  | getEquals
  | pending
  | setVariable (name : String) (s : Setting)
  | other
  deriving Inhabited

end Config.Session

structure Config.Session where
  env : Environment
  draft : Config := .standard
  fixed : ConfigCell := none
  pending : Option Failure := none

namespace Config.Session

def pair (c : Config) : Datum := .list [.wide c.stackSize, .wide c.maxNestingDepth]

def register (s : Session) (e : SwitchError) : Session :=
  { s with pending := some (s.pending.getD (.ofError e)) }

def step (s : Session) : Command → Datum × Session
  | .fresh => (pair .standard, { s with draft := .standard })
  | .ofEnvironment =>
    let c := Config.ofEnvironment s.env
    (pair c, { s with draft := c })
  | .stackSize n =>
    let c := { s.draft with stackSize := n }
    (pair c, { s with draft := c })
  | .depth n =>
    let c := { s.draft with maxNestingDepth := n }
    (pair c, { s with draft := c })
  | .validate =>
    match s.draft.fault? with
    | none => (.ok, s)
    | some f => ((SwitchError.invalidConfig f.reason).datum, s)
  | .fix =>
    match ConfigCell.fix s.fixed s.draft with
    | .ok cell => (.ok, { s with fixed := cell })
    | .error r =>
      let e := SwitchError.ofRefusal r
      (e.datum, s.register e)
  | .isStandard => (.bool (s.draft == .standard), s)
  | .debug => (.text s.draft.text, s)
  | .get =>
    let (c, cell) := ConfigCell.get s.env s.fixed
    (pair c, { s with fixed := cell })
  | .getEquals =>
    let (c, cell) := ConfigCell.get s.env s.fixed
    (.bool (c == s.draft), { s with fixed := cell })
  | .pending => (.optional Failure.detail s.pending, { s with pending := none })
  | .setVariable name v => (.null, { s with env := s.env.set name v })
  | .other => (.null, s)

def runAll (s : Session) : List Command → List Datum
  | [] => []
  | c :: cs =>
    let (d, s) := s.step c
    d :: runAll s cs

def transcript (env : Environment) (cs : List Command) : Datum :=
  .record [("out", .list (runAll { env } cs))]

end Config.Session

end Switchyard
