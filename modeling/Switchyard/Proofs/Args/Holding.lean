import Switchyard.Proofs.Args.Calls
import Switchyard.Proofs.Args.Copies
import Switchyard.Proofs.Facade.Counts

/-!
# Payloads hold counted references

A payload holds one reference for each place that has an object. A call that replaces an object
gives the reference to it up, before anything else goes on; a copy of the payload takes one
reference for each place.
-/

namespace Switchyard

namespace World

variable {w : World} {a : Args Obj} {acc : Args Obj} {purpose : Purpose}
  {below : List (Item Task)} {r q : Ref}

def valueAs (w : World) (k : Kind) (o : Obj) : Option Value :=
  o.bind fun r => if (w.valueD r).kind = k then some (w.valueD r) else none

theorem valueAs_eq_some {k : Kind} {o : Obj} {v : Value} :
    w.valueAs k o = some v ↔ ∃ r, o = some r ∧ w.valueD r = v ∧ v.kind = k := by
  cases o with
  | none => simp [valueAs]
  | some r =>
    simp only [valueAs, Option.bind_some, Option.ite_none_right_eq_some, Option.some_inj]
    constructor
    · rintro ⟨hk, rfl⟩
      exact ⟨r, rfl, rfl, hk⟩
    · rintro ⟨_, rfl, rfl, hk⟩
      exact ⟨hk, rfl⟩

/-- A script that asks for a copy gets what the value has, if the kind is exactly the one asked
for. -/
theorem argsGetStep_eq (at_ : Selector) (k : Kind) (w : World) :
    w.argsGetStep at_ (some k) = w.note "args_get"
      [.list [.optional w.objDatum (select w.frame.last at_),
        ((w.valueAs k (select w.frame.last at_).join).bind Value.content?).getD .null]] := by
  unfold argsGetStep
  cases h : (select w.frame.last at_).join with
  | none =>
    simp only [h, valueAs]
    rfl
  | some r =>
    simp only [h, valueAs, Option.bind_some]
    change w.note "args_get" [.list [_, (w.valueD r).copy k]] = _
    rw [Value.copy_eq]
    by_cases hk : (w.valueD r).kind = k
    · rw [if_pos hk, if_pos hk]
      rfl
    · rw [if_neg hk, if_neg hk]
      rfl

theorem keywordNumber?_eq_some {name : String} {n : Int64} :
    w.keywordNumber? name a = some n ↔
      w.valueAs .i64 (a.keyword? name).join = some (.i64 n) := by
  rw [valueAs_eq_some, keywordNumber?]
  cases (a.keyword? name).join with
  | none => simp
  | some r =>
    simp only [Option.map_some, Option.some.injEq, exists_eq_left']
    cases w.valueD r <;> simp [Value.kind]

theorem number?_eq_some {n : Int64} :
    w.number? a = some n ↔ w.valueAs .i64 (a.get? 0).join = some (.i64 n) := by
  rw [valueAs_eq_some, number?]
  cases (a.get? 0).join with
  | none => simp
  | some r =>
    simp only [Option.map_some, Option.some.injEq, exists_eq_left']
    cases w.valueD r <;> simp [Value.kind]

theorem drop_of_shared (h : 1 < w.count r) : w.drop r = w.unref r := by
  obtain ⟨o, ho⟩ := object?_of_count (w := w) (r := r) (by omega)
  rw [count_of_some ho] at h
  unfold World.drop
  rw [ho]
  simp only [if_neg (Nat.not_le.mpr h)]
  rfl

/-- The next step gives up one reference to `r`, which there is where claims are covered, as runs
keep them. The last one takes the value with it, or the hook of the object keeps it. -/
structure GivesUp (w : World) (r : Ref) (below : List (Item Task)) : Prop where
  held : Covered [] w → 0 < w.count r
  shared : 1 < w.count r → w.next.count r = w.count r - 1 ∧
    (∀ q, q ≠ r → w.next.count q = w.count q) ∧ w.next.thread.stack = below
  last : w.count r = 1 → w.next.destroyed? = some r ∨ w.next.count r = 1

theorem givesUp (hw : w.Seated) (hstk : w.thread.stack = .task (.drop r) :: below) :
    w.GivesUp r below where
  held hc := by
    have hd := w.count_stackAt_le (w.active - 1) (.object r)
    have hs := hc (.object r) rfl
    rw [← stack_eq_stackAt, hstk] at hd
    simp only [Item.tokensOf, List.flatMap_cons, Item.tokens, Task.tokens, List.cons_append,
      List.count_cons_self] at hd
    rw [supply_object] at hs
    omega
  shared h := by
    have hs : 1 < (w.setStack below).count r := h
    rw [next_eq_drop hstk]
    refine ⟨count_drop hs, fun q hq => ?_, ?_⟩
    · rw [drop_of_shared hs, unref, count_modifyObject, if_neg (Ne.symm hq)]
      rfl
    · rw [drop_of_shared hs]
      exact stack_setStack hw below
  last h := next_drop hw hstk h

theorem count_retainAll (os : List Obj) (w : World) (r : Ref) (h : (w.object? r).isSome = true) :
    (w.retainAll os).count r = w.count r + os.count (some r) := by
  induction os generalizing w with
  | nil => rfl
  | cons o os ih =>
    change ((w.retainObj o).retainAll os).count r = _
    cases o with
    | none =>
      change (w.retainAll os).count r = _
      rw [ih w h, List.count_cons_of_ne (by simp)]
    | some q =>
      have hq : ((w.retain q).object? r).isSome = true := by
        rw [retain, object?_modifyObject]
        split <;> simp [h]
      change ((w.retain q).retainAll os).count r = _
      rw [ih _ hq, count_retain]
      by_cases hqr : q = r
      · rw [if_pos ⟨hqr, h⟩, hqr, List.count_cons_self]
        omega
      · rw [if_neg fun hc => hqr hc.1, List.count_cons_of_ne]
        simpa using hqr

def fetch (acc : Args Obj) (purpose : Purpose) (below : List (Item Task)) (v : Script.ValueSpec)
    (w : World) : Obj × World :=
  (w.setStack below).eval ((w.setStack below).receivedFor acc purpose) v

theorem stack_fetch (hw : w.Seated) (acc : Args Obj) (purpose : Purpose)
    (below : List (Item Task)) (v : Script.ValueSpec) :
    (w.fetch acc purpose below v).2.thread.stack = below :=
  (Level.eval _ _).stack.trans (stack_setStack hw below)

theorem seated_fetch (hw : w.Seated) (acc : Args Obj) (purpose : Purpose)
    (below : List (Item Task)) (v : Script.ValueSpec) :
    (w.fetch acc purpose below v).2.Seated :=
  (Level.eval _ _).seated ((seated_modifyThread _).mpr hw)

end World

namespace Args

open World

/-- What the calls tell about a place. -/
def told (cs : List (Call Obj)) : Selector → Option Obj
  | .index i => (pushed cs)[i]?
  | .keyword name => lastUnder name cs

theorem select_ofCalls (cs : List (Call Obj)) (at_ : Selector) :
    select (ofCalls cs) at_ = told cs at_ := by
  cases at_ with
  | index i => rw [select, get?, positional_ofCalls, told]
  | keyword name => exact keyword?_ofCalls cs name

/-- What the calls `cs` make of a payload: a list in the order of the calls, and a map with the
names in the order of their first use and the values of the last. -/
structure Made (cs : List (Call Obj)) : Prop where
  positional : (ofCalls cs).positional = pushed cs
  get : ∀ i, (ofCalls cs).get? i = (pushed cs)[i]?
  names : (ofCalls cs).keywords.map Prod.fst = names cs ∧ (names cs).Nodup
  keywords : (ofCalls cs).keywords = (Args.names cs).filterMap fun n =>
    (lastUnder n cs).map (n, ·)
  keyword : ∀ name, (ofCalls cs).keyword? name = lastUnder name cs
  entry : ∀ name o, (name, o) ∈ (ofCalls cs).keywords ↔ lastUnder name cs = some o
  size : (ofCalls cs).size = (pushed cs).length + (Args.names cs).length
  /-- A copy of a value comes exactly from an object of the kind. -/
  copy : ∀ (w : World) (at_ : Selector) (k : Kind), w.frame.last = ofCalls cs →
    w.argsGetStep at_ (some k) = w.note "args_get" [.list [.optional w.objDatum (told cs at_),
      ((w.valueAs k (told cs at_).join).bind Value.content?).getD .null]]
  /-- The kind says whether there is a copy. -/
  content : ∀ v : Value, v.content?.isSome = v.kind.copies ∧ v.content? ≠ some .null
  /-- A copy is all of the value. -/
  whole : ∀ u v : Value, u.kind = v.kind → u.kind.copies = true → u.content? = v.content? → u = v
  number : ∀ (w : World) n, w.number? (ofCalls cs) = some n ↔
    w.valueAs .i64 (pushed cs)[0]?.join = some (.i64 n)
  keywordNumber : ∀ (w : World) name n, w.keywordNumber? name (ofCalls cs) = some n ↔
    w.valueAs .i64 (lastUnder name cs).join = some (.i64 n)
  /-- Each value that was given is in one place of the payload, or was replaced once. -/
  held : (cs.map Call.value).Perm ((ofCalls cs).values ++ replaced empty cs)
  /-- The program goes on after one value more. -/
  push : ∀ (w : World) v rest kws purpose below, w.Seated →
    w.thread.stack = .task (.build (ofCalls cs) (v :: rest) kws purpose) :: below →
    let e := w.fetch (ofCalls cs) purpose below v
    (∀ q, w.next.count q = e.2.count q) ∧ w.next.thread.stack =
      .task (.build (ofCalls (cs ++ [.push e.1])) rest kws purpose) :: below
  /-- A name that is new, or has no object, replaces none. -/
  set : ∀ (w : World) name v rest purpose below, w.Seated →
    w.thread.stack = .task (.build (ofCalls cs) [] ((name, v) :: rest) purpose) :: below →
    (lastUnder name cs).join = none →
    let e := w.fetch (ofCalls cs) purpose below v
    (∀ q, w.next.count q = e.2.count q) ∧ w.next.thread.stack =
      .task (.build (ofCalls (cs ++ [.set name e.1])) [] rest purpose) :: below
  /-- The object that a name had loses the reference that the payload held. -/
  replace : ∀ (w : World) name v rest purpose below r, w.Seated →
    w.thread.stack = .task (.build (ofCalls cs) [] ((name, v) :: rest) purpose) :: below →
    (lastUnder name cs).join = some r →
    let e := w.fetch (ofCalls cs) purpose below v
    (∀ q, w.next.count q = e.2.count q) ∧
      w.next.GivesUp r (.task (.build (ofCalls (cs ++ [.set name e.1])) [] rest purpose) :: below)
  /-- A copy of the payload takes a reference for each place that has an object. -/
  clone : ∀ (w : World) purpose, w.frame.last = ofCalls cs →
    w.buildArgs .received purpose = (w.retainAll (ofCalls cs).values).built (ofCalls cs) purpose ∧
      ∀ r, (w.object? r).isSome = true → (w.retainAll (ofCalls cs).values).count r =
        w.count r + (ofCalls cs).values.count (some r)

theorem mem_keywords_ofCalls (cs : List (Call Obj)) (name : String) (o : Obj) :
    (name, o) ∈ (ofCalls cs).keywords ↔ lastUnder name cs = some o := by
  obtain ⟨hk, hd⟩ := keys_ofCalls cs
  rw [mem_iff_lookup (hk ▸ hd), ← keyword?_ofCalls]
  rfl

/-- What a program evaluates next is put into the payload, and what the call replaces is dropped
before anything else goes on. -/
theorem next_build_set {w : World} (hw : w.Seated) {cs : List (Call Obj)} {name : String}
    {v : Script.ValueSpec} {rest : List (String × Script.ValueSpec)} {purpose : Purpose}
    {below : List (Item Task)}
    (hstk : w.thread.stack = .task (.build (ofCalls cs) [] ((name, v) :: rest) purpose) :: below) :
    (∀ q, w.next.count q = (w.fetch (ofCalls cs) purpose below v).2.count q) ∧ w.next.Seated ∧
      w.next.thread.stack = (((lastUnder name cs).join).map fun r => .task (.drop r)).toList ++
        .task (.build (ofCalls (cs ++ [.set name (w.fetch (ofCalls cs) purpose below v).1]))
          [] rest purpose) :: below := by
  have hnext : w.next = (w.fetch (ofCalls cs) purpose below v).2.push
      ((((ofCalls cs).keyword? name).join.map Task.drop).toList ++
        [.build (ofCalls (cs ++ [.set name (w.fetch (ofCalls cs) purpose below v).1]))
          [] rest purpose]) := by
    unfold World.next
    rw [hstk, ofCalls_concat]
    rfl
  have hs := seated_fetch hw (ofCalls cs) purpose below v
  rw [hnext, keyword?_ofCalls]
  refine ⟨fun q => rfl, (seated_modifyThread _).mpr hs, ?_⟩
  rw [stack_push hs, stack_fetch hw]
  cases (lastUnder name cs).join <;> rfl

/-- A keyword that is given twice, at first a number and then a text. -/
def loading : World :=
  Script.start .empty [] [.args (.built [.i64 5] [("k", .i64 1), ("k", .str "two")])] 500

end Args

end Switchyard
