import Switchyard.Pool.Basic

/-!
# Typed storage

Storage for one value comes from the pool, storage for several from the general allocator, which
only counts. Storage of no octets is free.
-/

namespace Switchyard

/-- Storage handed out for `count` values of a type with layout `element`. -/
structure Storage where
  element : Layout
  count : Nat
  block : Option Block
  deriving DecidableEq, Repr, Inhabited

namespace Storage

inductive Origin where
  | fresh
  | reused (b : Block)
  deriving DecidableEq, Repr

/-- `none` when the array does not fit the address space. -/
def allocate (p : Pool) (element : Layout) (count : Nat) : Option (Origin × Storage × Pool) :=
  match element.array? count with
  | none => none
  | some l =>
    if l.size = 0 then some (.fresh, ⟨element, count, none⟩, p)
    else if count = 1 then
      let (served, p) := p.alloc l
      let origin := match served with
        | .reused b => .reused b
        | _ => .fresh
      some (origin, ⟨element, count, served.block?⟩, p)
    else some (.fresh, ⟨element, count, none⟩, p.noteBulkAlloc)

def release (p : Pool) (s : Storage) : Pool :=
  if s.element.size * s.count = 0 then p
  else if s.count = 1 then
    match s.block with
    | some b => (p.free b s.element).2
    | none => p
  else p.noteBulkRelease

def overflowMessage (element : Layout) (count : Nat) : String :=
  "allocation of " ++ toString count ++ " x " ++ toString element.size ++ " bytes overflows"

end Storage

end Switchyard
