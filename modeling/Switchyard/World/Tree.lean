import Switchyard.World.Drop

/-!
# The tree of greenlets

Parent links lead up to the main greenlet of a hub. Walks along them are bounded.
-/

namespace Switchyard.World

def parent (w : World) (r : Ref) : Option Ref := (w.greenlet r).parent

/-- The nearest ancestor that satisfies `p`, at most so many links away. -/
def findAncestor (w : World) (p : Ref → Bool) : Nat → Ref → Except Unit (Option Ref)
  | 0, r => if (w.parent r).isNone then .ok none else .error ()
  | n + 1, r =>
    match w.parent r with
    | none => .ok none
    | some q => if p q then .ok (some q) else w.findAncestor p n q

/-- A walk of at most `limit` links. -/
def ancestorWithin (limit : Nat) (w : World) (p : Ref → Bool) (r : Ref) :
    Except SwitchError (Option Ref) :=
  match w.findAncestor p limit r with
  | .ok found => .ok found
  | .error () => .error (.nestingTooDeep limit)

/-- A walk within the depth limit of the process. -/
def ancestor (w : World) (p : Ref → Bool) (r : Ref) : Except SwitchError (Option Ref) :=
  ancestorWithin w.depthLimit w p r

/-- Where control goes after `r`: its nearest ancestor that is not dead, else the main greenlet
of the hub. The answer is a new reference. -/
def nextLive (h : HubId) (r : Ref) (w : World) : Ref × World :=
  let main := (w.hub h).main
  let (next, w) := match w.ancestor (fun q => !(w.greenlet q).state.isDead) r with
    | .ok found => (found.getD main, w)
    | .error e => (main, w.warn ("greenlet " ++ (w.greenlet r).id.text ++ ": " ++ e.message ++
        ", returning to main"))
  (next, w.retain next)

/-- Why `r` may not go under `p`. -/
def reparentError? (w : World) (r p : Ref) : Option SwitchError :=
  let g := w.greenlet r
  let q := w.greenlet p
  if g.isMain then some .mainParent
  else if q.thread != g.thread then some (.crossThreadParent q.id)
  else if p == r then some (.parentCycle g.id)
  else
    match w.ancestor (· == r) p with
    | .error e => some e
    | .ok (some _) => some (.parentCycle g.id)
    | .ok none => none

/-- Move `r` under `p`, or say why not. The caller gets the old parent. -/
def setParent (r p : Ref) (w : World) : Except SwitchError (Option Ref) × World :=
  match w.reparentError? r p with
  | some e => (.error e, w.raise e)
  | none =>
    (.ok (w.parent r), (w.retain p).modifyGreenlet r fun g => { g with parent := some p })

/-- The hub of the main greenlet at the root above `r`, at most `limit` links up, if that hub still
has an owner. -/
def ownerWithin (limit : Nat) (w : World) (r : Ref) : Except SwitchError HubId :=
  let root := if (w.greenlet r).isMain then .ok (some r)
    else ancestorWithin limit w (fun q => (w.greenlet q).isMain) r
  match root with
  | .error e => .error e
  | .ok none => .error .threadExited
  | .ok (some m) =>
    let h := (w.greenlet m).hub
    if w.hubLives h then .ok h else .error .threadExited

/-- The owner within the depth limit of the process. A failed search is registered. -/
def ownerOf (r : Ref) (w : World) : Except SwitchError HubId × World :=
  match ownerWithin w.depthLimit w r with
  | .ok h => (.ok h, w)
  | .error e => (.error e, w.raise e)

/-- An unstarted greenlet under `parent?` or under the current one, as a new reference. A refused
run function stays with the caller. -/
def createGreenlet (h : HubId) (run : RunFn) (parent? : Option Ref) (w : World) :
    Except SwitchError Ref × World :=
  let s := w.hub h
  let p := parent?.getD s.current
  let q := w.greenlet p
  let refused (e : SwitchError) : Except SwitchError Ref × World := (.error e, w.raise e)
  if s.closed then refused .threadExited
  else if parent?.isSome && q.thread != s.thread then refused (.crossThreadParent q.id)
  else
    let (id, w) := (w.retain p).nextId
    let (r, w) := w.alloc (.greenlet
      ⟨id, s.thread, false, h, .unstarted, some p, some run, none, none⟩)
    let w := w.modifyHub h fun s => { s with nodes := r :: s.nodes }
    (.ok r, w.trace ("greenlet " ++ id.text ++ " created on " ++ threadName s.thread))

end Switchyard.World
