import Mathlib
import Switchyard.Buffer.Basic

/-!
# Buffers are lists

A history is what calls on a buffer did, the latest first. Between them the pool may serve anybody
else. The buffer answers as a list would, whatever is left in its places; no value is lost, and none
is handed out twice. Its storage is the least that has held the longest list so far.
-/

namespace Switchyard.Buffer

variable {α : Type} {b b' : Buffer α} {xs : List α} {x : α} {element : Layout} {p p' : Pool}

/-- The values of `xs` are in the first places. -/
structure Holds (b : Buffer α) (xs : List α) : Prop where
  size : b.size = xs.length
  room : xs.length ≤ b.capacity
  read : ∀ i < xs.length, b.read i = xs[i]?

theorem holds_empty : Holds ({} : Buffer α) [] where
  size := rfl
  room := Nat.le_refl 0
  read i hi := absurd hi (Nat.not_lt_zero i)

namespace Holds

theorem items (h : Holds b xs) : b.items = xs := by
  have key (n : Nat) (hn : n ≤ xs.length) : (List.range n).filterMap b.read = xs.take n := by
    induction n with
    | zero => rfl
    | succ n ih =>
      rw [List.range_succ, List.filterMap_append, ih (Nat.le_of_succ_le hn), List.take_add_one]
      congr 1
      rw [List.filterMap_cons, h.read n hn]
      cases xs[n]? <;> rfl
  rw [Buffer.items, h.size, key xs.length (Nat.le_refl _), List.take_length]

theorem init (h : Holds b (xs ++ [x])) : Holds { b with size := b.size - 1 } xs where
  size := by simp [h.size]
  room := by
    have := h.room
    rw [List.length_append] at this
    exact Nat.le_of_succ_le this
  read i hi := by
    have hr := h.read i (by simp; omega)
    rw [List.getElem?_append_left hi] at hr
    exact hr

theorem pop_nil (h : Holds b []) : b.pop = (none, b) := by
  have hs : b.size = 0 := h.size
  rw [pop, if_pos hs]

theorem pop_concat (h : Holds b (xs ++ [x])) :
    b.pop = (some x, { b with size := b.size - 1 }) := by
  have hs : b.size = xs.length + 1 := by simpa using h.size
  have hr := h.read xs.length (by simp)
  rw [pop, if_neg (by omega), hs, Nat.add_sub_cancel, hr]
  simp

theorem popAll (h : Holds b xs) : b.popAll = (xs.reverse, { b with size := 0 }) := by
  induction xs using List.reverseRecOn generalizing b with
  | nil =>
    rw [Buffer.popAll.eq_def]
    have hs : b.size = 0 := h.size
    split
    · rename_i b' hp
      rw [h.pop_nil] at hp
      obtain ⟨-, rfl⟩ := Prod.mk.inj hp
      rw [List.reverse_nil, ← hs]
    · rename_i hp
      rw [h.pop_nil] at hp
      cases hp
  | append_singleton xs x ih =>
    rw [Buffer.popAll.eq_def]
    split
    · rename_i hp
      rw [h.pop_concat] at hp
      cases hp
    · rename_i y b' hp
      rw [h.pop_concat] at hp
      obtain ⟨hy, rfl⟩ := Prod.mk.inj hp
      obtain rfl := Option.some.inj hy
      rw [ih h.init, List.reverse_append]
      rfl

theorem takeAll (h : Holds b xs) : b.takeAll = (xs, { b with size := 0 }) := by
  rw [Buffer.takeAll, h.popAll]
  simp

theorem emptied (_ : Holds b xs) : Holds { b with size := 0 } [] where
  size := rfl
  room := Nat.zero_le _
  read i hi := absurd hi (Nat.not_lt_zero i)

theorem size_take (h : Holds b xs) : (b.cells.take b.size).size = xs.length := by
  have hr := h.room
  rw [capacity] at hr
  rw [Array.take_eq_extract, Array.size_extract, h.size, Nat.min_eq_left hr, Nat.sub_zero]

theorem moveTo (h : Holds b xs) (n : Nat) : Holds (b.moveTo n) xs where
  size := h.size
  room := by
    rw [capacity, Buffer.moveTo, Array.size_append, h.size_take, Array.size_replicate, h.size]
    omega
  read i hi := by
    have hlt : i < (b.cells.take b.size).size := h.size_take ▸ hi
    have hkept : (b.cells.take b.size)[i]? = b.cells[i]? := by
      rw [Array.take_eq_extract, Array.size_extract] at hlt
      rw [Array.take_eq_extract, Array.getElem?_extract, if_pos hlt, Nat.zero_add]
    rw [← h.read i hi, Buffer.read, Buffer.moveTo, Array.getElem?_append_left hlt, hkept]
    rfl

theorem capacity_moveTo (h : Holds b xs) {n : Nat} (hn : xs.length ≤ n) :
    (b.moveTo n).capacity = n := by
  rw [capacity, Buffer.moveTo, Array.size_append, h.size_take, Array.size_replicate, h.size]
  omega

theorem write (h : Holds b xs) (hb : b.size < b.capacity) : Holds (b.write x) (xs ++ [x]) where
  size := by simp [Buffer.write, h.size]
  room := by
    rw [h.size] at hb
    simp only [Buffer.write, capacity, Array.size_setIfInBounds, List.length_append,
      List.length_singleton]
    exact hb
  read i hi := by
    rw [capacity] at hb
    by_cases he : i = xs.length
    · subst he
      simp [Buffer.write, Buffer.read, ← h.size, hb]
    · have hlt : i < xs.length := by
        rw [List.length_append, List.length_singleton] at hi
        omega
      rw [List.getElem?_append_left hlt, ← h.read i hlt]
      simp only [Buffer.write, Buffer.read]
      rw [Array.getElem?_setIfInBounds_ne (by rw [h.size]; omega)]

end Holds

theorem capacity_write (b : Buffer α) (x : α) : (b.write x).capacity = b.capacity := by
  simp [write, capacity]

theorem lt_nextCapacity (b : Buffer α) : b.capacity < b.nextCapacity := by
  unfold nextCapacity firstCapacity
  split <;> omega

def lent (element : Layout) (c : Nat) : Nat := if element.size = 0 ∨ c = 0 then 0 else 1

theorem allocate_bulk (element : Layout) (p : Pool) {n : Nat} (hn : 1 < n) :
    Storage.allocate p element n = none ∧ element.array? n = none ∨
    ∃ storage p', Storage.allocate p element n = some (.fresh, storage, p') ∧
      element.array? n ≠ none ∧ p'.stats.releases = p.stats.releases ∧
      p'.stats.bulkAllocs = p.stats.bulkAllocs + lent element n := by
  have hpos : n ≠ 0 := by omega
  have hone : n ≠ 1 := by omega
  unfold Storage.allocate Layout.array?
  by_cases hfit : element.size * n + (element.align - 1) ≤ Layout.sizeLimit
  · right
    rw [if_pos hfit]
    by_cases hz : element.size = 0
    · exact ⟨⟨element, n, none⟩, p, by simp [hz, lent]⟩
    · have hm : element.size * n ≠ 0 := Nat.mul_ne_zero hz hpos
      exact ⟨⟨element, n, none⟩, p.noteBulkAlloc, by
        simp [hz, hm, hpos, hone, lent, Pool.noteBulkAlloc]⟩
  · left
    rw [if_neg hfit]
    exact ⟨rfl, rfl⟩

theorem returnStorage_stats (element : Layout) (p : Pool) (hc : b.capacity ≠ 1) :
    (b.returnStorage element p).stats.bulkAllocs = p.stats.bulkAllocs ∧
    (b.returnStorage element p).stats.releases = p.stats.releases + lent element b.capacity := by
  unfold returnStorage
  by_cases hz : b.capacity = 0
  · simp [hz, lent]
  · by_cases he : element.size = 0
    · simp [hz, he, lent, Storage.release]
    · have hm : element.size * b.capacity ≠ 0 := Nat.mul_ne_zero he hz
      simp [hz, he, hm, hc, lent, Storage.release, Pool.noteBulkRelease]

/-- What becomes of a push. -/
inductive Pushes (element : Layout) (b : Buffer α) (x : α) (p : Pool) :
    Option (Buffer α × Pool) → Prop where
  | fits (hb : b.size ≠ b.capacity) : Pushes element b x p (some (b.write x, p))
  | grows {p' : Pool} (hb : b.size = b.capacity) (hl : element.array? b.nextCapacity ≠ none)
      (ha : p'.stats.bulkAllocs = p.stats.bulkAllocs + lent element b.nextCapacity)
      (hr : p'.stats.releases = p.stats.releases + lent element b.capacity) :
      Pushes element b x p (some ((b.moveTo b.nextCapacity).write x, p'))
  | refuses (hb : b.size = b.capacity) (hn : element.array? b.nextCapacity = none) :
      Pushes element b x p none

theorem one_lt_nextCapacity (b : Buffer α) : 1 < b.nextCapacity := by
  unfold nextCapacity firstCapacity
  split <;> omega

theorem pushes (element : Layout) (x : α) (p : Pool) (hc : b.capacity ≠ 1) :
    Pushes element b x p (b.push element x p) := by
  unfold push
  split
  · rename_i hb
    unfold grow
    rcases allocate_bulk element p b.one_lt_nextCapacity with
      ⟨hn, hl⟩ | ⟨storage, q, hs, hl, hq, ha⟩
    · rw [hn]
      exact .refuses hb hl
    · rw [hs]
      obtain ⟨h₁, h₂⟩ := returnStorage_stats element q hc
      exact .grows hb hl (h₁.trans ha) (by rw [h₂, hq])
  · exact .fits ‹_›

inductive Event (α : Type) where
  | push (x : α)
  /-- The storage that the push needs does not fit the address space. The value is dropped. -/
  | refuse (x : α)
  | pop (x : Option α)
  | takeAll (xs : List α)

/-- What is left when the calls are made on a list. -/
def contents : List (Event α) → List α
  | [] => []
  | .push x :: es => contents es ++ [x]
  | .refuse _ :: es => contents es
  | .pop _ :: es => (contents es).dropLast
  | .takeAll _ :: _ => []

def Faithful : List (Event α) → Prop
  | [] => True
  | .push _ :: es | .refuse _ :: es => Faithful es
  | .pop x :: es => x = (contents es).getLast? ∧ Faithful es
  | .takeAll xs :: es => xs = contents es ∧ Faithful es

def given : List (Event α) → List α
  | [] => []
  | .push x :: es | .refuse x :: es => x :: given es
  | .pop _ :: es | .takeAll _ :: es => given es

def gone : List (Event α) → List α
  | [] => []
  | .push _ :: es => gone es
  | .refuse x :: es => x :: gone es
  | .pop x :: es => x.toList ++ gone es
  | .takeAll xs :: es => xs ++ gone es

def peak : List (Event α) → Nat
  | [] => 0
  | e :: es => max (contents (e :: es)).length (peak es)

/-- How often storage was allocated and released for the buffer. -/
structure Account where
  allocs : Nat := 0
  releases : Nat := 0

def Account.add (a : Account) (p p' : Pool) : Account where
  allocs := a.allocs + (p'.stats.bulkAllocs - p.stats.bulkAllocs)
  releases := a.releases + (p'.stats.releases - p.stats.releases)

/-- The buffer after a history of calls. Each push finds the pool as others have left it. -/
inductive History (element : Layout) : List (Event α) → Buffer α → Account → Prop where
  | start : History element [] {} {}
  | push {es : List (Event α)} {b b' : Buffer α} {a : Account} {x : α} {p p' : Pool}
      (h : History element es b a) (hp : b.push element x p = some (b', p')) :
      History element (.push x :: es) b' (a.add p p')
  | refuse {es : List (Event α)} {b : Buffer α} {a : Account} {x : α} {p : Pool}
      (h : History element es b a) (hp : b.push element x p = none) :
      History element (.refuse x :: es) b a
  | pop {es : List (Event α)} {b : Buffer α} {a : Account} (h : History element es b a) :
      History element (.pop b.pop.1 :: es) b.pop.2 a
  | takeAll {es : List (Event α)} {b : Buffer α} {a : Account} (h : History element es b a) :
      History element (.takeAll b.takeAll.1 :: es) b.takeAll.2 a

variable {es es₀ : List (Event α)} {a a₀ : Account} {b₀ : Buffer α}

theorem length_contents_le (es : List (Event α)) : (contents es).length ≤ peak es := by
  cases es with
  | nil => exact Nat.le_refl 0
  | cons e es => exact Nat.le_max_left _ _

theorem peak_le_of_suffix (h : es₀ <:+ es) : peak es₀ ≤ peak es := by
  induction es with
  | nil => rw [List.suffix_nil.mp h]
  | cons e es ih =>
    rcases List.suffix_cons_iff.mp h with rfl | h
    · exact Nat.le_refl _
    · exact Nat.le_trans (ih h) (Nat.le_max_right _ _)

/-- Places enough for `n` values, by doubling from four. -/
inductive Suits : Nat → Nat → Prop where
  | none : Suits 0 0
  | some (k : Nat) {n : Nat} (hn : 0 < n) (hle : n ≤ 4 * 2 ^ k)
      (hlt : ∀ j < k, 4 * 2 ^ j < n) : Suits n (4 * 2 ^ k)

namespace Suits

variable {n c : Nat}

theorem le (h : Suits n c) : n ≤ c := by
  cases h with
  | none => exact Nat.le_refl 0
  | some k hn hle hlt => exact hle

theorem ne_one (h : Suits n c) : c ≠ 1 := by
  cases h with
  | none => exact Nat.zero_ne_one
  | some k hn hle hlt => omega

theorem isLeast (h : Suits n c) (hn : 0 < n) : IsLeast {m | (∃ k, m = 4 * 2 ^ k) ∧ n ≤ m} c := by
  cases h with
  | none => exact absurd hn (Nat.lt_irrefl 0)
  | some k hn hle hlt =>
    refine ⟨⟨⟨k, rfl⟩, hle⟩, ?_⟩
    rintro m ⟨⟨j, rfl⟩, hm⟩
    by_contra hj
    have hjk : j < k := by
      by_contra hge
      have := Nat.pow_le_pow_right (n := 2) (by omega) (Nat.le_of_not_lt hge)
      omega
    exact absurd hm (Nat.not_le.mpr (hlt j hjk))

theorem stretch (h : Suits n c) {m : Nat} (hm : n ≤ m) (hc : m ≤ c) : Suits m c := by
  cases h with
  | none =>
    obtain rfl := Nat.le_zero.mp hc
    exact .none
  | some k hn hle hlt => exact .some k (by omega) hc fun j hj => Nat.lt_of_lt_of_le (hlt j hj) hm

theorem double (h : Suits n c) : Suits (c + 1) (if c = 0 then firstCapacity else 2 * c) := by
  cases h with
  | none => exact .some 0 (by omega) (by decide) (fun j hj => absurd hj (Nat.not_lt_zero j))
  | some k hn hle hlt =>
    have hpow : 4 * 2 ^ k ≠ 0 := by omega
    have htwice : 2 * (4 * 2 ^ k) = 4 * 2 ^ (k + 1) := by
      rw [Nat.pow_succ]
      omega
    rw [if_neg hpow, htwice]
    refine .some (k + 1) (Nat.succ_pos _) ?_ fun j hj => ?_
    · omega
    · have := Nat.pow_le_pow_right (n := 2) (by omega) (Nat.le_of_lt_succ hj)
      omega

theorem mono (h : Suits n c) {n' c' : Nat} (h' : Suits n' c') (hn : n ≤ n') : c ≤ c' := by
  cases h with
  | none => exact Nat.zero_le _
  | some k hpos hle hlt =>
    have h₁ := (Suits.some k hpos hle hlt).isLeast hpos
    have h₂ := h'.isLeast (Nat.lt_of_lt_of_le hpos hn)
    exact h₁.2 ⟨h₂.1.1, Nat.le_trans hn h₂.1.2⟩

end Suits

theorem peak_pos (h : Event.push x ∈ es) : 0 < peak es := by
  induction es with
  | nil => cases h
  | cons e es ih =>
    rcases List.mem_cons.mp h with rfl | h
    · have := length_contents_le (.push x :: es)
      simp only [contents, List.length_append, List.length_singleton] at this
      omega
    · exact Nat.lt_of_lt_of_le (ih h) (Nat.le_max_right _ _)

theorem peak_eq_zero (h : ∀ x, Event.push x ∉ es) : contents es = [] ∧ peak es = 0 := by
  induction es with
  | nil => exact ⟨rfl, rfl⟩
  | cons e es ih =>
    obtain ⟨hc, hp⟩ := ih fun x hx => h x (List.mem_cons_of_mem _ hx)
    cases e with
    | push x => exact absurd List.mem_cons_self (h x)
    | refuse | pop | takeAll => simp [peak, contents, hc, hp]

/-- A buffer does as a list would, and has the storage for it. -/
structure Follows (element : Layout) (es : List (Event α)) (b : Buffer α) (a : Account) : Prop where
  holds : Holds b (contents es)
  faithful : Faithful es
  moved : (given es).Perm (gone es ++ contents es)
  suits : Suits (peak es) b.capacity
  account : a.allocs = a.releases + lent element b.capacity

namespace Follows

theorem start : Follows element ([] : List (Event α)) {} {} where
  holds := holds_empty
  faithful := trivial
  moved := .nil
  suits := .none
  account := by simp [lent, capacity]

private theorem moved_push (f : Follows element es b a) (x : α) :
    (given (.push x :: es)).Perm (gone (.push x :: es) ++ contents (.push x :: es)) := by
  simp only [given, gone, contents, ← List.append_assoc]
  exact (f.moved.cons x).trans (List.perm_append_singleton x _).symm

theorem push (f : Follows element es b a) (h : b.push element x p = some (b', p')) :
    Follows element (.push x :: es) b' (a.add p p') := by
  have hp := pushes element x p f.suits.ne_one
  have hsize := f.holds.size
  have hpeak := f.suits.le
  have htop : peak (.push x :: es) = max (b.size + 1) (peak es) := by simp [peak, contents, hsize]
  rw [h] at hp
  cases hp with
  | fits hb =>
    have hlt : b.size < b.capacity := Nat.lt_of_le_of_ne (hsize ▸ f.holds.room) hb
    have hcap := b.capacity_write x
    refine ⟨f.holds.write hlt, f.faithful, f.moved_push x, ?_, ?_⟩
    · rw [htop, hcap]
      exact f.suits.stretch (Nat.le_max_right _ _) (Nat.max_le.mpr ⟨hlt, hpeak⟩)
    · simp [Account.add, hcap, f.account]
  | grows hb hl ha hr =>
    have hnext : b.size < b.nextCapacity := hb ▸ b.lt_nextCapacity
    have hroom : (b.moveTo b.nextCapacity).capacity = b.nextCapacity :=
      f.holds.capacity_moveTo (hsize ▸ Nat.le_of_lt hnext)
    have hmore : (b.moveTo b.nextCapacity).size < (b.moveTo b.nextCapacity).capacity := by
      rw [hroom]
      exact hnext
    have hcap : ((b.moveTo b.nextCapacity).write x).capacity = b.nextCapacity := by
      rw [capacity_write, hroom]
    refine ⟨(f.holds.moveTo _).write hmore, f.faithful, f.moved_push x, ?_, ?_⟩
    · rw [htop, hcap, hb, Nat.max_eq_left (by omega)]
      exact f.suits.double
    · have := f.account
      simp only [Account.add, hcap]
      omega

theorem refuse (f : Follows element es b a) (x : α) : Follows element (.refuse x :: es) b a where
  holds := f.holds
  faithful := f.faithful
  moved := f.moved.cons x
  suits := by
    have hp : peak (.refuse x :: es) = peak es := Nat.max_eq_right (length_contents_le es)
    rw [hp]
    exact f.suits
  account := f.account

private theorem suits_of_le (f : Follows element es b a) {e : Event α}
    (h : (contents (e :: es)).length ≤ (contents es).length) : Suits (peak (e :: es)) b.capacity := by
  rw [peak, Nat.max_eq_right (Nat.le_trans h (length_contents_le es))]
  exact f.suits

theorem pop (f : Follows element es b a) :
    Follows element (.pop b.pop.1 :: es) b.pop.2 a := by
  have hsuits (x : Option α) : Suits (peak (.pop x :: es)) b.capacity :=
    f.suits_of_le (by simp [contents])
  have hh := f.holds
  have hm := f.moved
  rcases List.eq_nil_or_concat (contents es) with hc | ⟨xs, x, hc⟩
  · rw [hc] at hh hm
    rw [hh.pop_nil]
    refine ⟨?_, ⟨by simp [hc], f.faithful⟩, ?_, hsuits _, f.account⟩
    · simpa [contents, hc] using hh
    · simpa [given, gone, contents, hc] using hm
  · rw [List.concat_eq_append] at hc
    rw [hc] at hh hm
    rw [hh.pop_concat]
    refine ⟨?_, ⟨by simp [hc], f.faithful⟩, ?_, hsuits _, f.account⟩
    · simpa [contents, hc] using hh.init
    · simp only [given, gone, contents, hc, List.dropLast_concat, Option.toList_some,
        List.cons_append]
      refine hm.trans ?_
      rw [← List.append_assoc]
      exact List.perm_append_singleton x _

theorem takeAll (f : Follows element es b a) :
    Follows element (.takeAll b.takeAll.1 :: es) b.takeAll.2 a := by
  rw [f.holds.takeAll]
  refine ⟨f.holds.emptied, ⟨rfl, f.faithful⟩, ?_, f.suits_of_le (by simp [contents]), f.account⟩
  simp only [given, gone, contents, List.append_nil]
  exact f.moved.trans List.perm_append_comm

theorem drop (f : Follows element es b a) (p : Pool) :
    (b.drop element p).1 = (contents es).reverse ∧
      (a.add p (b.drop element p).2).allocs = (a.add p (b.drop element p).2).releases := by
  unfold Buffer.drop
  rw [f.holds.popAll]
  have hc : ({ b with size := 0 } : Buffer α).capacity ≠ 1 := f.suits.ne_one
  obtain ⟨h₁, h₂⟩ := returnStorage_stats element p hc
  have h₃ : lent element ({ b with size := 0 } : Buffer α).capacity = lent element b.capacity := rfl
  refine ⟨rfl, ?_⟩
  have := f.account
  simp only [Account.add]
  omega

end Follows

theorem History.follows (h : History element es b a) : Follows element es b a := by
  induction h with
  | start => exact .start
  | push h hp ih => exact ih.push hp
  | refuse h hp ih => exact ih.refuse _
  | pop h ih => exact ih.pop
  | takeAll h ih => exact ih.takeAll

/-- A buffer after the calls in `es` does as a list does. -/
structure Refines (element : Layout) (es : List (Event α)) (b : Buffer α) (a : Account) :
    Prop where
  items : b.items = contents es
  size : b.size = (contents es).length
  answers : Faithful es
  /-- What was given has gone or is still there, each value as often as it was given. -/
  moved : (given es).Perm (gone es ++ b.items)
  /-- A push is refused only if the storage that it needs does not fit the address space. -/
  refuses (x : α) (p : Pool) : b.push element x p = none ↔
    b.size = b.capacity ∧ element.array? b.nextCapacity = none
  fresh : (∀ x, .push x ∉ es) → b.capacity = 0
  least (x : α) : .push x ∈ es → IsLeast {c | (∃ k, c = 4 * 2 ^ k) ∧ peak es ≤ c} b.capacity
  kept (es₀ : List (Event α)) (b₀ : Buffer α) (a₀ : Account) : es₀ <:+ es →
    History element es₀ b₀ a₀ → b₀.capacity ≤ b.capacity
  storage : element.size ≠ 0 → a.allocs = a.releases + if b.capacity = 0 then 0 else 1
  /-- The last value is dropped first, and the storage goes back. -/
  drops (p : Pool) : (b.drop element p).1 = (contents es).reverse ∧
    (a.add p (b.drop element p).2).allocs = (a.add p (b.drop element p).2).releases

end Switchyard.Buffer
