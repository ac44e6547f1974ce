import Switchyard.Buffer.Basic
import Switchyard.Datum
import Switchyard.Pool.Session

/-!
# Buffer sessions

Commands on one buffer of texts. The content decides whether dropped values leave a trace and
whether values take storage.
-/

namespace Switchyard.Buffer

inductive Content where
  | number
  /-- Values that leave a trace when they are dropped. -/
  | tick
  /-- Values of no octets. -/
  | unit
  deriving DecidableEq, Repr, Inhabited

def Content.element : Content → Layout
  | number => ⟨8, 8⟩
  | tick => ⟨32, 8⟩
  | unit => ⟨0, 1⟩

def Content.traced (c : Content) (dropped : List String) : List String :=
  if c = .tick then dropped else []

inductive Command where
  | push (items : List String)
  | pop
  | takeAll
  | drop
  | slice
  | debug
  | other
  deriving Inhabited

structure Session where
  content : Content
  buffer : Buffer String := {}
  pool : Pool := {}

namespace Session

def pushAll (s : Session) : List String → Datum × List String × Session
  | [] => (.null, [], s)
  | x :: xs =>
    match s.buffer.push s.content.element x s.pool with
    | none =>
      let panic := Storage.overflowMessage s.content.element s.buffer.nextCapacity
      (.record [("panic", .text panic)], x :: xs, s)
    | some (buffer, pool) => pushAll { s with buffer, pool } xs

def run (s : Session) : Command → Datum × List String × Session
  | .push items =>
    let items := if s.content = .unit then ["unit"] else items
    s.pushAll items
  | .pop =>
    let (x, buffer) := s.buffer.pop
    (.optional .text x, x.toList, { s with buffer })
  | .takeAll =>
    let (xs, buffer) := s.buffer.takeAll
    (.texts xs, xs, { s with buffer })
  | .drop =>
    let (xs, pool) := s.buffer.drop s.content.element s.pool
    (.null, xs, { s with buffer := {}, pool })
  | .slice => (if s.content = .number then .texts s.buffer.items else .null, [], s)
  | .debug =>
    (if s.content = .number then .text ("[" ++ ", ".intercalate s.buffer.items ++ "]") else .null,
      [], s)
  | .other => (.null, [], s)

def report (s : Session) (d : Datum) (dropped : List String) : Datum :=
  .list [d, .nat s.buffer.size, .nat s.buffer.capacity, .bool s.buffer.isEmpty,
    .list [.nat s.pool.stats.bulkAllocs, .nat s.pool.stats.releases],
    .texts (s.content.traced dropped)]

def runAll (s : Session) : List Command → List Datum × Session
  | [] => ([], s)
  | c :: cs =>
    let (d, dropped, s) := s.run c
    let r := s.report d dropped
    let (rs, s) := runAll s cs
    (r :: rs, s)

end Session

def transcript (content : Content) (cs : List Command) : Datum :=
  let (out, s) := Session.runAll { content } cs
  let (rest, _) := s.buffer.drop content.element s.pool
  .record [("out", .list out), ("dropped", .texts (content.traced rest))]

end Switchyard.Buffer
