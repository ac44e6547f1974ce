import Switchyard.Rally.Play

/-!
# The rally as a program
-/

namespace Switchyard.Rally

/-- The variables that the program looks at. -/
def settingNames : List String :=
  [roundsVariable, Log.levelVariable, Log.flushVariable, Config.stackVariable,
    Config.depthVariable]

def environment : IO Environment := do
  let entries ← settingNames.mapM fun name => do
    match ← IO.getEnv name with
    | some s => return (name, Setting.text s)
    | none => return (name, Setting.unset)
  return ⟨entries⟩

def program : IO UInt32 := do
  let w := play (← environment)
  for line in w.log.output do
    IO.eprintln line
  for line in lines w do
    IO.println line
  return 0

end Switchyard.Rally

def main : IO UInt32 := Switchyard.Rally.program
