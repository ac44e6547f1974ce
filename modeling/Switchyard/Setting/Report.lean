import Switchyard.Log.Session

/-!
# Settings read by type

What each typed reader makes of one setting: the value or its default, and the value if there is
one.
-/

namespace Switchyard.Setting

/-- The types that a setting is read at. -/
inductive Reader where
  | flag (default : Bool)
  | bool (default : Bool)
  | integer (range : Text.Range) (default : Int)
  | character
  | level
  | floating
  | string
  | unknown
  deriving Inhabited

/-- The default of the string reader. -/
def Reader.standIn : String := "dflt"

def floatingDatum : Text.Floating → Datum
  | .nan => .text "nan"
  | .bits n => .text (Text.hex 16 n)

def report (s : Setting) : Reader → Datum
  | .flag default => .bool (s.flag default)
  | .bool default =>
    .list [.bool (s.readD Text.boolean default), .optional .bool (s.read? Text.boolean)]
  | .integer range default =>
    .list [.wide (s.readD (Text.integer range) default),
      .optional .wide (s.read? (Text.integer range))]
  | .character => .optional (fun c => .text c.toString) (s.read? Text.character)
  | .level => .optional LogLevel.datum (s.read? LogLevel.parse?)
  | .floating => .optional floatingDatum (s.read? Text.floating)
  | .string => .list [.text (s.readD some Reader.standIn), .optional .text (s.read? some)]
  | .unknown => .null

end Switchyard.Setting
