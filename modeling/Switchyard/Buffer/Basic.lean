import Switchyard.Pool.Storage

/-!
# Growable buffers

A buffer takes its storage in bulk: four places at the first push, twice as many whenever it is
full. Taking values out keeps the storage, and leaves in its place what was moved out. The pool's
counters see every change of storage, save for values of no octets.
-/

namespace Switchyard

structure Buffer (α : Type) where
  /-- The places of the storage. Those from `size` on have nothing in them, or what was moved out. -/
  cells : Array (Option α) := #[]
  size : Nat := 0
  deriving Inhabited, Repr

namespace Buffer

variable {α : Type}

def firstCapacity : Nat := 4

def capacity (b : Buffer α) : Nat := b.cells.size

def isEmpty (b : Buffer α) : Bool := b.size == 0

def read (b : Buffer α) (i : Nat) : Option α := b.cells[i]?.join

/-- The values in the buffer, the first one first. -/
def items (b : Buffer α) : List α := (List.range b.size).filterMap b.read

def nextCapacity (b : Buffer α) : Nat := if b.capacity = 0 then firstCapacity else 2 * b.capacity

def returnStorage (element : Layout) (b : Buffer α) (p : Pool) : Pool :=
  if b.capacity = 0 then p else Storage.release p ⟨element, b.capacity, none⟩

def moveTo (capacity : Nat) (b : Buffer α) : Buffer α :=
  { b with cells := b.cells.take b.size ++ Array.replicate (capacity - b.size) none }

/-- Room for more values; the old storage goes back after the new one was obtained. There is none
when it does not fit the address space. -/
def grow (element : Layout) (b : Buffer α) (p : Pool) : Option (Buffer α × Pool) :=
  (Storage.allocate p element b.nextCapacity).map fun (_, _, p) =>
    (b.moveTo b.nextCapacity, b.returnStorage element p)

def write (x : α) (b : Buffer α) : Buffer α where
  cells := b.cells.setIfInBounds b.size (some x)
  size := b.size + 1

/-- Without a place for the value the buffer stays as it is. -/
def push (element : Layout) (b : Buffer α) (x : α) (p : Pool) : Option (Buffer α × Pool) :=
  (if b.size = b.capacity then b.grow element p else some (b, p)).map fun (b, p) => (b.write x, p)

/-- The last value. Its place keeps what was there. -/
def pop (b : Buffer α) : Option α × Buffer α :=
  if b.size = 0 then (none, b) else (b.read (b.size - 1), { b with size := b.size - 1 })

theorem size_of_pop {b b' : Buffer α} {x : α} (h : b.pop = (some x, b')) : b'.size < b.size := by
  unfold pop at h
  split at h
  · cases h
  · obtain ⟨-, rfl⟩ := Prod.mk.inj h
    exact Nat.sub_one_lt ‹_›

/-- The values as they are popped, until there are no more. -/
def popAll (b : Buffer α) : List α × Buffer α :=
  match h : b.pop with
  | (none, b') => ([], b')
  | (some x, b') =>
    have : b'.size < b.size := size_of_pop h
    let (xs, rest) := b'.popAll
    (x :: xs, rest)
termination_by b.size

def takeAll (b : Buffer α) : List α × Buffer α :=
  let (xs, b) := b.popAll
  (xs.reverse, b)

def drop (element : Layout) (b : Buffer α) (p : Pool) : List α × Pool :=
  let (xs, b) := b.popAll
  (xs, b.returnStorage element p)

end Buffer

end Switchyard
