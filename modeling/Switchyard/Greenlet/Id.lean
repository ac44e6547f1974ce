/-!
# Greenlet identifiers

Identifiers are 32-bit words handed out in sequence. The largest word stands for no greenlet and
is stepped over.
-/

namespace Switchyard

structure GreenletId where
  word : UInt32
  deriving DecidableEq, Repr, Inhabited

namespace GreenletId

def none : GreenletId := ⟨0xFFFFFFFF⟩

def isNone (i : GreenletId) : Bool := i.word == 0xFFFFFFFF

def lt (a b : GreenletId) : Bool := a.word < b.word

def toOption (i : GreenletId) : Option GreenletId := if i.isNone then Option.none else some i

def text (i : GreenletId) : String := if i.isNone then "none" else toString i.word.toNat

def debug (i : GreenletId) : String :=
  "GreenletId(" ++ (if i.isNone then "NONE" else toString i.word.toNat) ++ ")"

end GreenletId

/-- The next word to hand out. -/
structure IdSource where
  word : UInt32
  deriving DecidableEq, Repr, Inhabited

namespace IdSource

def start : IdSource := ⟨1⟩

/-- One indivisible advance: the current word, and the word after it. -/
def advance (s : IdSource) : UInt32 × IdSource := (s.word, ⟨s.word + 1⟩)

/-- A fresh identifier. A draw of the reserved word is made good by a second draw. -/
def next (s : IdSource) : GreenletId × IdSource :=
  let (w, s) := s.advance
  if w == 0xFFFFFFFF then
    let (w, s) := s.advance
    (⟨w⟩, s)
  else (⟨w⟩, s)

end IdSource

end Switchyard
