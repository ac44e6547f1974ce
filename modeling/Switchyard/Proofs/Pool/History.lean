import Mathlib.Data.List.Basic
import Switchyard.Pool.Basic

/-!
# The blocks of a pool

A history is what allocations and frees did, the latest first, under a system that may offer any
block which it has not given out. The pool keeps and lends exactly the blocks that the system has
given out and not got back, each under the layout that the system knows it by.
-/

namespace Switchyard.Pool

def request (l : Layout) : Layout :=
  match classOf l with
  | some c => classLayout c
  | none => l

inductive Event where
  | alloc (l : Layout) (s : Served)
  | free (b : Block) (l : Layout) (f : Freed)

namespace Event

def class? : Event → Option Nat
  | alloc l _ | free _ l _ => classOf l

def isFresh : Event → Bool
  | alloc _ (.fresh ..) => true
  | _ => false

def isReuse : Event → Bool
  | alloc _ (.reused _) => true
  | _ => false

def isFree : Event → Bool
  | free .. => true
  | _ => false

def isReturn : Event → Bool
  | free _ _ (.returned _) => true
  | _ => false

end Event

/-- The blocks that are lent, with the layouts that they were allocated with. -/
def live : List Event → List (Block × Layout)
  | [] => []
  | .alloc l s :: es => (s.block?.map (·, l)).toList ++ live es
  | .free b l _ :: es => (live es).erase (b, l)

/-- The blocks that the system has given out, with the layouts that it was asked for. -/
def held : List Event → List (Block × Layout)
  | [] => []
  | .alloc _ (.fresh b l) :: es => (b, l) :: held es
  | .free b _ (.returned l) :: es => (held es).erase (b, l)
  | _ :: es => held es

/-- When the block was last freed, counted in events; a free of no octets frees none. -/
def freedAt (b : Block) : List Event → Nat
  | [] => 0
  | .free b' _ f :: es => if b' = b ∧ f ≠ .empty then es.length + 1 else freedAt b es
  | .alloc .. :: es => freedAt b es

def offer (b : Block) (p : Pool) : Pool := { p with nextBlock := b }

/-- The pool after a history of allocations and frees. -/
inductive History : List Event → Pool → Prop where
  | start : History [] {}
  /-- The system offers a block that it has not given out. -/
  | alloc {es : List Event} {p : Pool} (h : History es p) (l : Layout) (b : Block)
      (hb : b ∉ (held es).map Prod.fst) :
      History (.alloc l ((p.offer b).alloc l).1 :: es) ((p.offer b).alloc l).2
  /-- A block is freed with the layout that it was allocated with. -/
  | free {es : List Event} {p : Pool} (h : History es p) (b : Block) (l : Layout)
      (hb : l.size = 0 ∨ (b, l) ∈ live es) :
      History (.free b l (p.free b l).1 :: es) (p.free b l).2

/-- How an allocation is served, and what it does to the kept blocks. -/
inductive Allocates (p : Pool) (l : Layout) : Served → Pool → Prop where
  | empty (h : l.size = 0) : Allocates p l .empty p
  | fresh {l' : Layout} {p' : Pool} (h : l.size ≠ 0) (hl : l' = request l)
      (hn : ∀ c, classOf l = some c → p.kept? c = none)
      (hk : p'.kept = p.kept) (hr : p'.stats.reused = p.stats.reused) :
      Allocates p l (.fresh p.nextBlock l') p'
  | reused {c : Nat} {b : Block} {p' : Pool} (hc : classOf l = some c)
      (hb : p.kept? c = some b) (hk : p'.kept = eraseFirst c p.kept)
      (hr : p'.stats.reused = p.stats.reused + 1) : Allocates p l (.reused b) p'

theorem request_of_classOf {l : Layout} {c : Nat} (h : classOf l = some c) :
    request l = classLayout c := by
  simp [request, h]

theorem request_of_unserved {l : Layout} (h : classOf l = none) : request l = l := by
  simp [request, h]

theorem allocates (p : Pool) (l : Layout) : Allocates p l (p.alloc l).1 (p.alloc l).2 := by
  unfold alloc
  split
  · exact .empty ‹_›
  rename_i hl
  split
  · rename_i hc
    exact .fresh hl (request_of_unserved hc).symm (by simp [hc]) rfl rfl
  · rename_i c hc
    dsimp only
    split
    · rename_i hn
      exact .fresh hl (request_of_classOf hc).symm (fun d hd => by
        obtain rfl : c = d := Option.some.inj (hc.symm.trans hd)
        exact hn) rfl rfl
    · rename_i b hb
      exact .reused hc hb rfl rfl

/-- Where a freed block goes, and what becomes of the kept ones. -/
inductive Frees (p : Pool) (b : Block) (l : Layout) : Freed → Pool → Prop where
  | empty (h : l.size = 0) : Frees p b l .empty p
  | kept {c : Nat} {p' : Pool} (hc : classOf l = some c)
      (hlt : p.keptCount c < keepLimit) (hk : p'.kept = (c, b) :: p.kept)
      (hr : p'.stats.reused = p.stats.reused) : Frees p b l .kept p'
  | returned {l' : Layout} {p' : Pool} (h : l.size ≠ 0) (hl : l' = request l)
      (hfull : ∀ c, classOf l = some c → keepLimit ≤ p.keptCount c) (hk : p'.kept = p.kept)
      (hr : p'.stats.reused = p.stats.reused) : Frees p b l (.returned l') p'

theorem frees (p : Pool) (b : Block) (l : Layout) : Frees p b l (p.free b l).1 (p.free b l).2 := by
  unfold free
  split
  · exact .empty ‹_›
  rename_i hl
  dsimp only
  split
  · rename_i hc
    exact .returned hl (request_of_unserved hc).symm (by simp [hc]) rfl rfl
  · rename_i c hc
    split
    · rename_i hlt
      exact .kept hc hlt rfl rfl
    · rename_i hlt
      exact .returned hl (request_of_classOf hc).symm (fun d hd => by
        obtain rfl : c = d := Option.some.inj (hc.symm.trans hd)
        exact Nat.le_of_not_lt hlt) rfl rfl

variable {es : List Event} {p p' : Pool} {l : Layout} {b : Block} {c : Nat} {s : Served} {f : Freed}

theorem size_ne_zero_of_classOf (h : classOf l = some c) : l.size ≠ 0 := by
  rintro h₀
  simp [classOf, h₀] at h

/-- What the system is asked for is large enough for the layout, and as strict. -/
theorem le_request (l : Layout) : l.size ≤ (request l).size ∧ l.align ≤ (request l).align := by
  rcases hc : classOf l with _ | c
  · simp [request_of_unserved hc]
  · rw [request_of_classOf hc]
    unfold classOf at hc
    split at hc
    · cases hc
    · rename_i hn
      simp only [Bool.or_eq_true, decide_eq_true_eq, not_or, Nat.not_lt] at hn
      cases hc
      simp only [classLayout, granule] at hn ⊢
      omega

theorem split_kept {k : List (Nat × Block)} (h : k.lookup c = some b) :
    ∃ k₁ k₂, k = k₁ ++ (c, b) :: k₂ ∧ eraseFirst c k = k₁ ++ k₂ ∧ ∀ e ∈ k₁, e.1 ≠ c := by
  induction k with
  | nil => cases h
  | cons e k ih =>
    obtain ⟨d, b'⟩ := e
    by_cases hd : d = c
    · subst hd
      simp only [List.lookup_cons, beq_self_eq_true, Option.some.injEq] at h
      subst h
      exact ⟨[], k, rfl, by simp [eraseFirst], by simp⟩
    · simp only [List.lookup_cons, beq_false_of_ne (Ne.symm hd)] at h
      obtain ⟨k₁, k₂, rfl, he, hn⟩ := ih h
      refine ⟨(d, b') :: k₁, k₂, rfl, by simp [eraseFirst, hd, he], ?_⟩
      simpa [hd] using hn

theorem keptCount_eq_zero (h : p.kept? c = none) : p.keptCount c = 0 := by
  rw [keptCount, List.countP_eq_zero]
  rintro ⟨d, b⟩ hm hd
  have hn := List.lookup_eq_none_iff.mp h (d, b) hm
  simp_all

theorem freedAt_le (b : Block) (es : List Event) : freedAt b es ≤ es.length := by
  induction es with
  | nil => exact Nat.le_refl _
  | cons e es ih =>
    cases e with
    | alloc l s => exact Nat.le_succ_of_le ih
    | free b' l f =>
      unfold freedAt
      split
      · exact Nat.le_refl _
      · exact Nat.le_succ_of_le ih

def keptAs (e : Nat × Block) : Block × Layout := (e.2, classLayout e.1)

def lentAs (e : Block × Layout) : Block × Layout := (e.1, request e.2)

def obtained (c : Nat) (es : List Event) : Nat :=
  es.countP fun e => e.isFresh && e.class? == some c

def returned (c : Nat) (es : List Event) : Nat :=
  es.countP fun e => e.isReturn && e.class? == some c

def lent (c : Nat) (es : List Event) : Nat :=
  (live es).countP fun e => classOf e.2 == some c

def classFrees (es : List Event) : Nat :=
  es.countP fun e => e.isFree && e.class?.isSome

def overflows (es : List Event) : Nat :=
  es.countP fun e => e.isReturn && e.class?.isSome

/-- The kept and the lent blocks are those that the system has given out. -/
structure Tidy (es : List Event) (p : Pool) : Prop where
  held : (p.kept.map keptAs ++ (live es).map lentAs).Perm (held es)
  distinct : ((Pool.held es).map Prod.fst).Nodup
  sized : ∀ e ∈ live es, e.2.size ≠ 0
  limit : ∀ c, p.keptCount c ≤ keepLimit
  /-- The block that was freed last comes first. -/
  recent : p.kept.Pairwise fun x y => freedAt y.2 es < freedAt x.2 es
  balance : ∀ c, obtained c es = lent c es + p.keptCount c + returned c es
  reused : p.stats.reused = es.countP Event.isReuse
  freed : classFrees es = p.keptBlocks + p.stats.reused + overflows es

namespace Tidy

theorem start : Tidy [] {} where
  held := .nil
  distinct := List.nodup_nil
  sized := by simp [live]
  limit c := Nat.zero_le _
  recent := .nil
  balance c := rfl
  reused := rfl
  freed := rfl

theorem offer (h : Tidy es p) (b : Block) : Tidy es (p.offer b) :=
  ⟨h.held, h.distinct, h.sized, h.limit, h.recent, h.balance, h.reused, h.freed⟩

theorem nodup (h : Tidy es p) : (p.kept.map Prod.snd ++ (live es).map Prod.fst).Nodup := by
  have hp := h.held.map Prod.fst
  rw [List.map_append, List.map_map, List.map_map] at hp
  exact hp.nodup_iff.mpr h.distinct

theorem mem_held (h : Tidy es p) (hb : (b, l) ∈ live es) : (b, request l) ∈ Pool.held es :=
  h.held.mem_iff.mp (List.mem_append_right _ (List.mem_map_of_mem (f := lentAs) hb))

theorem notMem_kept (h : Tidy es p) (hb : (b, l) ∈ live es) : b ∉ p.kept.map Prod.snd := fun hk =>
  (List.nodup_append.mp h.nodup).2.2 b hk b (List.mem_map_of_mem (f := Prod.fst) hb) rfl

theorem notMem_live (h : Tidy es p) (hb : b ∈ p.kept.map Prod.snd) :
    b ∉ (live es).map Prod.fst := fun hl =>
  (List.nodup_append.mp h.nodup).2.2 b hb b hl rfl

theorem notMem_live_of_held (h : Tidy es p) (hb : b ∉ (Pool.held es).map Prod.fst) :
    b ∉ (live es).map Prod.fst := by
  rintro hl
  obtain ⟨⟨b', l⟩, hm, rfl⟩ := List.mem_map.mp hl
  exact hb (List.mem_map.mpr ⟨_, h.mem_held hm, rfl⟩)

theorem alloc_fresh (h : Tidy es p) (hb : b ∉ (Pool.held es).map Prod.fst) (hl : l.size ≠ 0)
    (hk : p'.kept = p.kept) (hr : p'.stats.reused = p.stats.reused) :
    Tidy (.alloc l (.fresh b (request l)) :: es) p' := by
  have hlive : live (.alloc l (.fresh b (request l)) :: es) =
      (b, l) :: live es := rfl
  constructor
  case held =>
    rw [hk, hlive, List.map_cons]
    exact List.perm_middle.trans (h.held.cons _)
  case distinct => exact List.nodup_cons.mpr ⟨hb, h.distinct⟩
  case sized =>
    rw [hlive]
    simpa using ⟨hl, fun b l hm => h.sized (b, l) hm⟩
  case limit => simpa [keptCount, hk] using h.limit
  case recent =>
    rw [hk]
    exact h.recent
  case balance =>
    intro c
    have := h.balance c
    simp only [obtained, lent, returned, hlive, keptCount, hk, List.countP_cons, Event.isFresh,
      Event.isReturn, Event.class?] at this ⊢
    simp only [Bool.true_and, Bool.false_and, Bool.false_eq_true, if_false] at this ⊢
    omega
  case reused => simpa [hr, Event.isReuse] using h.reused
  case freed =>
    simpa [classFrees, overflows, keptBlocks, hk, hr, Event.isFree, Event.isReturn] using h.freed

theorem alloc_reused (h : Tidy es p) (hc : classOf l = some c) (hb : p.kept? c = some b)
    (hk : p'.kept = eraseFirst c p.kept) (hr : p'.stats.reused = p.stats.reused + 1) :
    Tidy (.alloc l (.reused b) :: es) p' := by
  obtain ⟨k₁, k₂, hsplit, herase, -⟩ := split_kept hb
  rw [herase] at hk
  have hlive : live (.alloc l (.reused b) :: es) = (b, l) :: live es := rfl
  constructor
  case held =>
    have hheld := h.held
    rw [hsplit, List.map_append, List.map_cons] at hheld
    rw [hk, hlive, List.map_cons, List.map_append]
    have heq : lentAs (b, l) = keptAs (c, b) := by
      simp [lentAs, keptAs, request_of_classOf hc]
    rw [heq]
    refine List.Perm.trans ?_ hheld
    exact List.perm_middle.trans (List.perm_middle.symm.append_right _)
  case distinct => exact h.distinct
  case sized =>
    rw [hlive]
    simpa using ⟨size_ne_zero_of_classOf hc, fun b l hm => h.sized (b, l) hm⟩
  case limit =>
    intro d
    have := h.limit d
    simp only [keptCount, hsplit, hk, List.countP_append, List.countP_cons] at this ⊢
    omega
  case recent =>
    have hrecent := h.recent
    rw [hsplit] at hrecent
    rw [hk]
    exact hrecent.sublist (List.Sublist.append_left (List.sublist_cons_self _ _) _)
  case balance =>
    intro d
    have := h.balance d
    simp only [obtained, lent, returned, hlive, keptCount, hsplit, hk, List.countP_append,
      List.countP_cons, Event.isFresh, Event.isReturn, Event.class?, hc] at this ⊢
    simp only [Bool.false_and, Bool.false_eq_true, if_false, beq_iff_eq,
      Option.some.injEq] at this ⊢
    omega
  case reused => simpa [hr, Event.isReuse, List.countP_cons] using h.reused
  case freed =>
    have := h.freed
    simp only [classFrees, overflows, keptBlocks, hsplit, hk, hr, List.countP_cons,
      List.length_append, List.length_cons, Event.isFree, Event.isReturn] at this ⊢
    simp only [Bool.false_and, Bool.false_eq_true, if_false] at this ⊢
    omega

theorem alloc (h : Tidy es p) (hb : p.nextBlock ∉ (Pool.held es).map Prod.fst)
    (ha : Allocates p l s p') : Tidy (.alloc l s :: es) p' := by
  cases ha with
  | empty hl =>
    exact ⟨h.held, h.distinct, h.sized, h.limit, h.recent,
      by simpa [obtained, lent, returned, live, Served.block?, Event.isFresh, Event.isReturn]
        using h.balance,
      by simpa [Event.isReuse] using h.reused,
      by simpa [classFrees, overflows, Event.isFree, Event.isReturn] using h.freed⟩
  | fresh hl hl' hn hk hr =>
    subst hl'
    exact h.alloc_fresh hb hl hk hr
  | reused hc hb hk hr => exact h.alloc_reused hc hb hk hr

theorem countP_erase (hb : (b, l) ∈ live es) (c : Nat) :
    lent c es = ((live es).erase (b, l)).countP (fun e => classOf e.2 == some c) +
      if classOf l == some c then 1 else 0 := by
  rw [lent, (List.perm_cons_erase hb).countP_eq, List.countP_cons]

theorem freedAt_free (h : Tidy es p) (hm : (b, l) ∈ live es) {e : Nat × Block} (he : e ∈ p.kept) :
    freedAt e.2 (.free b l f :: es) = freedAt e.2 es := by
  have hne : b ≠ e.2 := by
    rintro rfl
    exact h.notMem_kept hm (List.mem_map_of_mem (f := Prod.snd) he)
  simp [freedAt, hne]

theorem free_kept (h : Tidy es p) (hm : (b, l) ∈ live es) (hc : classOf l = some c)
    (hlt : p.keptCount c < keepLimit) (hk : p'.kept = (c, b) :: p.kept)
    (hr : p'.stats.reused = p.stats.reused) : Tidy (.free b l .kept :: es) p' := by
  have hlive : live (.free b l .kept :: es) = (live es).erase (b, l) := rfl
  constructor
  case held =>
    have heq : keptAs (c, b) = lentAs (b, l) := by
      simp [lentAs, keptAs, request_of_classOf hc]
    rw [hk, hlive, List.map_cons, List.cons_append, heq]
    refine List.perm_middle.symm.trans (List.Perm.trans (List.Perm.append_left _ ?_) h.held)
    exact ((List.perm_cons_erase hm).map lentAs).symm
  case distinct => exact h.distinct
  case sized => exact fun e he => h.sized e (List.mem_of_mem_erase he)
  case limit =>
    intro d
    have := h.limit d
    simp only [keptCount, hk, List.countP_cons, beq_iff_eq] at this hlt ⊢
    split
    · rename_i hd
      subst hd
      exact hlt
    · exact this
  case recent =>
    rw [hk]
    refine List.pairwise_cons.mpr ⟨fun e he => ?_, h.recent.imp_of_mem fun {x y} hx hy hxy => ?_⟩
    · rw [h.freedAt_free hm he]
      simpa [freedAt] using Nat.lt_succ_of_le (freedAt_le e.2 es)
    · rwa [h.freedAt_free hm hx, h.freedAt_free hm hy]
  case balance =>
    intro d
    have := h.balance d
    rw [countP_erase hm] at this
    simp only [obtained, lent, returned, hlive, keptCount, hk, hc, List.countP_cons,
      Event.isFresh, Event.isReturn, Event.class?] at this ⊢
    simp only [Bool.false_and, Bool.false_eq_true, if_false, beq_iff_eq,
      Option.some.injEq] at this ⊢
    omega
  case reused => simpa [hr, Event.isReuse] using h.reused
  case freed =>
    have := h.freed
    simp only [classFrees, overflows, keptBlocks, hk, hr, hc, List.countP_cons,
      List.length_cons, Event.isFree, Event.isReturn, Event.class?] at this ⊢
    simp only [Bool.false_and, Bool.false_eq_true, if_false, Bool.true_and,
      Option.isSome_some, if_true] at this ⊢
    omega

theorem free_returned (h : Tidy es p) (hm : (b, l) ∈ live es) (hk : p'.kept = p.kept)
    (hr : p'.stats.reused = p.stats.reused) :
    Tidy (.free b l (.returned (request l)) :: es) p' := by
  have hlive : live (.free b l (.returned (request l)) :: es) = (live es).erase (b, l) := rfl
  have hheld : Pool.held (.free b l (.returned (request l)) :: es) =
    (Pool.held es).erase (b, request l) := rfl
  constructor
  case held =>
    rw [hk, hlive, hheld]
    refine List.Perm.cons_inv (a := (b, request l)) ?_
    refine List.Perm.trans ?_ (List.perm_cons_erase (h.mem_held hm))
    refine List.perm_middle.symm.trans (List.Perm.trans (List.Perm.append_left _ ?_) h.held)
    exact ((List.perm_cons_erase hm).map lentAs).symm
  case distinct =>
    rw [hheld]
    exact h.distinct.sublist (List.erase_sublist.map Prod.fst)
  case sized => exact fun e he => h.sized e (List.mem_of_mem_erase he)
  case limit => simpa [keptCount, hk] using h.limit
  case recent =>
    rw [hk]
    exact h.recent.imp_of_mem fun {x y} hx hy hxy => by
      rwa [h.freedAt_free hm hx, h.freedAt_free hm hy]
  case balance =>
    intro d
    have := h.balance d
    rw [countP_erase hm] at this
    simp only [obtained, lent, returned, hlive, keptCount, hk, List.countP_cons,
      Event.isFresh, Event.isReturn, Event.class?] at this ⊢
    simp only [Bool.false_and, Bool.true_and, Bool.false_eq_true, if_false] at this ⊢
    omega
  case reused => simpa [hr, Event.isReuse] using h.reused
  case freed =>
    have := h.freed
    simp only [classFrees, overflows, keptBlocks, hk, hr, List.countP_cons,
      Event.isFree, Event.isReturn, Event.class?] at this ⊢
    simp only [Bool.true_and] at this ⊢
    omega

theorem free (h : Tidy es p) (hb : l.size = 0 ∨ (b, l) ∈ live es) (hf : Frees p b l f p') :
    Tidy (.free b l f :: es) p' := by
  cases hf with
  | empty hl =>
    have hlive : live (.free b l .empty :: es) = (live es).erase (b, l) := rfl
    have hkeep : (live es).erase (b, l) = live es :=
      List.erase_of_not_mem fun hm => h.sized _ hm hl
    have hc : classOf l = none := by simp [classOf, hl]
    rw [hkeep] at hlive
    constructor
    case held => rw [hlive]; exact h.held
    case distinct => exact h.distinct
    case sized => exact fun e he => h.sized e (hlive ▸ he)
    case limit => exact h.limit
    case recent => simpa [freedAt] using h.recent
    case balance =>
      simpa [obtained, lent, returned, hlive, Event.isFresh, Event.isReturn] using h.balance
    case reused => simpa [Event.isReuse] using h.reused
    case freed => simpa [classFrees, overflows, Event.isReturn, Event.class?, hc] using h.freed
  | kept hc hlt hk hr =>
    exact h.free_kept (hb.resolve_left (size_ne_zero_of_classOf hc)) hc hlt hk hr
  | returned hl hl' hfull hk hr =>
    subst hl'
    exact h.free_returned (hb.resolve_left hl) hk hr

end Tidy

namespace History

theorem tidy (h : History es p) : Tidy es p := by
  induction h with
  | start => exact .start
  | alloc h l b hb ih => exact (ih.offer b).alloc hb (allocates _ l)
  | free h b l hb ih => exact ih.free hb (frees _ b l)

end History

/-- What a pool has to do with its callers and with the system after a history. -/
structure Accounts (es : List Event) (p : Pool) : Prop where
  /-- No block is kept twice, lent twice, or kept and lent. -/
  apart : (p.kept.map Prod.snd ++ (live es).map Prod.fst).Nodup
  /-- A block that is served was not lent. -/
  unlent : ∀ b₀ ∉ (held es).map Prod.fst, ∀ l, ∀ b ∈ ((p.offer b₀).alloc l).1.block?,
    b ∉ (live es).map Prod.fst
  /-- A lent block of a class was obtained as such, and it is large and strict enough. -/
  fits : ∀ b l c, (b, l) ∈ live es → classOf l = some c →
    (b, classLayout c) ∈ held es ∧ l.size ≤ (classLayout c).size ∧ l.align ≤ (classLayout c).align
  /-- A lent block of no class was obtained under its own layout. -/
  exact : ∀ b l, (b, l) ∈ live es → classOf l = none → (b, l) ∈ held es
  /-- A block goes back to the system under the layout that it was obtained with. -/
  returns : ∀ b l l', (b, l) ∈ live es → (p.free b l).1 = .returned l' → (b, l') ∈ held es
  limit : ∀ c, p.keptCount c ≤ keepLimit
  /-- A block of a class goes back to the system if and only if its list is full. -/
  full : ∀ b l c, classOf l = some c →
    ((∃ l', (p.free b l).1 = .returned l') ↔ p.keptCount c = keepLimit)
  /-- Each class lends or keeps what it has obtained and not returned. -/
  balance : ∀ c, obtained c es = lent c es + p.keptCount c + returned c es
  /-- A block is obtained for a class only when the class keeps none. -/
  lastResort : ∀ b₀ l b l', ((p.offer b₀).alloc l).1 = .fresh b l' →
    b = b₀ ∧ l' = request l ∧ ∀ c, classOf l = some c → p.keptCount c = 0
  /-- The block that is reused was freed after all others of its class. -/
  latest : ∀ b₀ l b, ((p.offer b₀).alloc l).1 = .reused b →
    ∃ c, classOf l = some c ∧ (c, b) ∈ p.kept ∧
      ∀ b', (c, b') ∈ p.kept → b' ≠ b → freedAt b' es < freedAt b es
  reused : p.stats.reused = es.countP Event.isReuse
  /-- What was freed and is of a class is kept, was reused or found its list full. -/
  kept : p.keptBlocks + p.stats.reused + overflows es = classFrees es

namespace Tidy

theorem unlent (h : Tidy es p) {b₀ : Block} (hb : b₀ ∉ (Pool.held es).map Prod.fst)
    (hs : b ∈ ((p.offer b₀).alloc l).1.block?) : b ∉ (live es).map Prod.fst := by
  have ha := allocates (p.offer b₀) l
  generalize ((p.offer b₀).alloc l).1 = s, ((p.offer b₀).alloc l).2 = p' at ha hs
  cases ha with
  | empty => cases hs
  | fresh => cases hs; exact h.notMem_live_of_held hb
  | @reused c _ _ hc hk =>
    cases hs
    obtain ⟨k₁, k₂, hsplit, -⟩ := split_kept hk
    replace hsplit : p.kept = k₁ ++ (c, b) :: k₂ := hsplit
    have hm : (c, b) ∈ p.kept := hsplit ▸ List.mem_append_right _ List.mem_cons_self
    exact h.notMem_live (List.mem_map_of_mem (f := Prod.snd) hm)

theorem returns (h : Tidy es p) (hm : (b, l) ∈ live es) {l' : Layout}
    (hf : (p.free b l).1 = .returned l') : (b, l') ∈ Pool.held es := by
  have hs := frees p b l
  rw [hf] at hs
  cases hs with
  | returned _ hl => exact hl ▸ h.mem_held hm

theorem full (h : Tidy es p) (hc : classOf l = some c) :
    (∃ l', (p.free b l).1 = .returned l') ↔ p.keptCount c = keepLimit := by
  have hs := frees p b l
  generalize (p.free b l).1 = f, (p.free b l).2 = p' at hs
  cases hs with
  | empty h₀ => exact absurd h₀ (size_ne_zero_of_classOf hc)
  | kept hd hlt =>
    obtain rfl := Option.some.inj (hc.symm.trans hd)
    simp [Nat.ne_of_lt hlt]
  | returned _ _ hfull => simp [Nat.le_antisymm (h.limit c) (hfull c hc)]

theorem lastResort {b₀ : Block} {l' : Layout}
    (hs : ((p.offer b₀).alloc l).1 = .fresh b l') :
    b = b₀ ∧ l' = request l ∧ ∀ c, classOf l = some c → p.keptCount c = 0 := by
  have ha := allocates (p.offer b₀) l
  rw [hs] at ha
  cases ha with
  | fresh _ hl hn => exact ⟨rfl, hl, fun c hc => keptCount_eq_zero (hn c hc)⟩

theorem latest (h : Tidy es p) {b₀ : Block} (hs : ((p.offer b₀).alloc l).1 = .reused b) :
    ∃ c, classOf l = some c ∧ (c, b) ∈ p.kept ∧
      ∀ b', (c, b') ∈ p.kept → b' ≠ b → freedAt b' es < freedAt b es := by
  have ha := allocates (p.offer b₀) l
  rw [hs] at ha
  cases ha with
  | @reused c _ _ hc hk =>
    obtain ⟨k₁, k₂, hsplit, -, hn⟩ := split_kept hk
    replace hsplit : p.kept = k₁ ++ (c, b) :: k₂ := hsplit
    have hrecent := h.recent
    rw [hsplit] at hrecent ⊢
    refine ⟨c, hc, List.mem_append_right _ List.mem_cons_self, fun b' hm hne => ?_⟩
    rcases List.mem_append.mp hm with h₁ | h₂
    · exact absurd rfl (hn _ h₁)
    · have h₂ := (List.mem_cons.mp h₂).resolve_left fun heq => hne (Prod.mk.inj heq).2
      exact (List.pairwise_cons.mp (List.pairwise_append.mp hrecent).2.1).1 _ h₂

end Tidy

/-- A pool lends no lent block and loses none, whatever blocks the system offers. -/
theorem History.accounts (h : History es p) : Accounts es p where
  apart := h.tidy.nodup
  unlent b₀ hb l b hs := h.tidy.unlent hb hs
  fits b l c hm hc := by
    rw [← request_of_classOf hc]
    exact ⟨h.tidy.mem_held hm, le_request l⟩
  exact b l hm hc := request_of_unserved hc ▸ h.tidy.mem_held hm
  returns b l l' hm hf := h.tidy.returns hm hf
  limit := h.tidy.limit
  full b l c hc := h.tidy.full hc
  balance := h.tidy.balance
  lastResort b₀ l b l' hs := Tidy.lastResort hs
  latest b₀ l b hs := h.tidy.latest hs
  reused := h.tidy.reused
  kept := h.tidy.freed.symm

/-- Two blocks of one class are lent and freed; the one that was freed last is lent again. -/
theorem History.accounts_reusing :
    ∃ es p, History es p ∧ p.kept = [(1, 7)] ∧ live es = [(9, ⟨32, 16⟩)] ∧ Accounts es p := by
  have h := ((((History.start.alloc ⟨24, 8⟩ 7 (by decide)).alloc ⟨20, 4⟩ 9 (by decide)).free
    7 ⟨24, 8⟩ (by decide)).free 9 ⟨20, 4⟩ (by decide)).alloc ⟨32, 16⟩ 11 (by decide)
  exact ⟨_, _, h, rfl, rfl, h.accounts⟩

end Switchyard.Pool
