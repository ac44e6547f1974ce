import Switchyard.Text.Octets

/-!
# Result data

Every answer of the library is a `Datum`. `Datum.compact` is its compact written form, with fields
sorted by name; two answers are ordered by that text.
-/

namespace Switchyard

inductive Datum where
  | null
  | bool (b : Bool)
  | int (n : Int)
  | text (s : String)
  | list (items : List Datum)
  | record (fields : List (String × Datum))
  deriving Inhabited

namespace Datum

def nat (n : Nat) : Datum := .int n

/-- Whole numbers wider than 32 bits are written as decimal text. -/
def wide (n : Int) : Datum := .text (toString n)

def optional (f : α → Datum) : Option α → Datum
  | none => .null
  | some a => f a

def texts (ss : List String) : Datum := .list (ss.map .text)

def ok : Datum := .text "ok"

def escape (c : Char) : List Char :=
  match c with
  | '"' => ['\\', '"']
  | '\\' => ['\\', '\\']
  | '\n' => ['\\', 'n']
  | '\r' => ['\\', 'r']
  | '\t' => ['\\', 't']
  | '\x08' => ['\\', 'b']
  | '\x0c' => ['\\', 'f']
  | c =>
    if c.toNat < 32 then
      ['\\', 'u', '0', '0', Text.hexDigit (c.toNat / 16), Text.hexDigit (c.toNat % 16)]
    else [c]

def quote (s : String) : String :=
  "\"" ++ String.ofList (s.toList.flatMap escape) ++ "\""

/-- Insertion by name; a name that is already there keeps the later value. -/
def insertField (name : String) (d : Datum) : List (String × Datum) → List (String × Datum)
  | [] => [(name, d)]
  | (n, e) :: rest =>
    if name < n then (name, d) :: (n, e) :: rest
    else if name = n then (name, d) :: rest
    else (n, e) :: insertField name d rest

def sortFields (fields : List (String × Datum)) : List (String × Datum) :=
  fields.foldl (fun acc f => insertField f.1 f.2 acc) []

mutual
def sorted : Datum → Datum
  | .list items => .list (sortedList items)
  | .record fields => .record (sortFields (sortedRecord fields))
  | d => d

def sortedList : List Datum → List Datum
  | [] => []
  | d :: ds => d.sorted :: sortedList ds

def sortedRecord : List (String × Datum) → List (String × Datum)
  | [] => []
  | (n, d) :: fs => (n, d.sorted) :: sortedRecord fs
end

mutual
private def write : Datum → String
  | .null => "null"
  | .bool b => if b then "true" else "false"
  | .int n => toString n
  | .text s => quote s
  | .list items => "[" ++ ",".intercalate (writeList items) ++ "]"
  | .record fields => "\x7b" ++ ",".intercalate (writeFields fields) ++ "\x7d"

private def writeList : List Datum → List String
  | [] => []
  | d :: ds => d.write :: writeList ds

private def writeFields : List (String × Datum) → List String
  | [] => []
  | (n, d) :: fs => (quote n ++ ":" ++ d.write) :: writeFields fs
end

def compact (d : Datum) : String := d.sorted.write

end Datum

end Switchyard
