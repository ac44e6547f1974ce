/-!
# The small-object pool

Blocks of up to 512 octets are served from size classes of 16 octets. A freed block is kept for
reuse, the latest first, at most 256 for each class; larger or stricter requests go to the system.
-/

namespace Switchyard

structure Layout where
  size : Nat
  align : Nat
  deriving DecidableEq, Repr, Inhabited

namespace Layout

/-- The largest size of an object in the address space. -/
def sizeLimit : Nat := 0x7FFFFFFFFFFFFFFF

/-- The alignment is a power of two, and the size still fits when rounded up to it. -/
def isValid (l : Layout) : Bool :=
  l.align != 0 && Nat.pow 2 l.align.log2 == l.align && l.size + (l.align - 1) ≤ sizeLimit

def array? (l : Layout) (n : Nat) : Option Layout :=
  if l.size * n + (l.align - 1) ≤ sizeLimit then some ⟨l.size * n, l.align⟩ else none

end Layout

/-- Blocks obtained from the system have distinct names. -/
abbrev Block := Nat

structure PoolStats where
  smallAllocs : Nat := 0
  reused : Nat := 0
  bulkAllocs : Nat := 0
  releases : Nat := 0
  deriving DecidableEq, Repr, Inhabited

structure Pool where
  /-- Kept blocks with their classes, the latest first. -/
  kept : List (Nat × Block) := []
  stats : PoolStats := {}
  nextBlock : Block := 0
  deriving Inhabited, Repr

namespace Pool

def granule : Nat := 16
def maxSize : Nat := 512
def keepLimit : Nat := 256

/-- The class that serves a layout; class `c` has blocks of `16 * (c + 1)` octets. -/
def classOf (l : Layout) : Option Nat :=
  if l.size = 0 || l.size > maxSize || l.align > granule then none
  else some ((l.size + granule - 1) / granule - 1)

def classLayout (c : Nat) : Layout := ⟨(c + 1) * granule, granule⟩

/-- Where an allocation came from. -/
inductive Served where
  /-- No octets were asked for. -/
  | empty
  | reused (b : Block)
  /-- Obtained from the system as a block of that layout. -/
  | fresh (b : Block) (l : Layout)
  deriving DecidableEq, Repr

def Served.block? : Served → Option Block
  | empty => none
  | reused b | fresh b _ => some b

inductive Freed where
  /-- There was no block. -/
  | empty
  | kept
  /-- Given back to the system as a block of that layout. -/
  | returned (l : Layout)
  deriving DecidableEq, Repr

def kept? (p : Pool) (c : Nat) : Option Block := p.kept.lookup c

def eraseFirst (c : Nat) : List (Nat × Block) → List (Nat × Block)
  | [] => []
  | (d, b) :: rest => if d = c then rest else (d, b) :: eraseFirst c rest

def keptCount (p : Pool) (c : Nat) : Nat := p.kept.countP fun e => e.1 == c

def obtain (l : Layout) (p : Pool) : Served × Pool :=
  (.fresh p.nextBlock l, { p with nextBlock := p.nextBlock + 1 })

def alloc (p : Pool) (l : Layout) : Served × Pool :=
  if l.size = 0 then (.empty, p) else
  match classOf l with
  | none => p.obtain l
  | some c =>
    let p := { p with stats.smallAllocs := p.stats.smallAllocs + 1 }
    match p.kept? c with
    | none => p.obtain (classLayout c)
    | some b =>
      (.reused b, { p with
        kept := eraseFirst c p.kept
        stats.reused := p.stats.reused + 1 })

def free (p : Pool) (b : Block) (l : Layout) : Freed × Pool :=
  if l.size = 0 then (.empty, p) else
  let p := { p with stats.releases := p.stats.releases + 1 }
  match classOf l with
  | none => (.returned l, p)
  | some c =>
    if p.keptCount c < keepLimit then (.kept, { p with kept := (c, b) :: p.kept })
    else (.returned (classLayout c), p)

def noteBulkAlloc (p : Pool) : Pool :=
  { p with stats.bulkAllocs := p.stats.bulkAllocs + 1 }

def noteBulkRelease (p : Pool) : Pool :=
  { p with stats.releases := p.stats.releases + 1 }

def keptBlocks (p : Pool) : Nat := p.kept.length

end Pool

end Switchyard
