import Mathlib.Data.List.Induction
import Mathlib.Data.List.Nodup
import Switchyard.Args

/-!
# Payloads as a list and a map

What a payload has after any number of calls: the appended values in the order of the calls, and
under each name that was used the value of its last call, the names in the order of their first.
-/

namespace Switchyard.Args

variable {α : Type} {name m : String} {x y : α} {kw : List (String × α)}

inductive Call (α : Type) where
  | push (x : α)
  | set (name : String) (x : α)

namespace Call

def value : Call α → α
  | push x | set _ x => x

def pushed? : Call α → Option α
  | push x => some x
  | set .. => none

def bound? : Call α → Option (String × α)
  | push _ => none
  | set name x => some (name, x)

def apply (a : Args α) : Call α → Args α
  | push x => a.push x
  | set name x => a.setKeyword name x

/-- The value that the call puts out of a payload. -/
def replaced? (a : Args α) : Call α → Option α
  | push _ => none
  | set name _ => a.keyword? name

end Call

def ofCalls (cs : List (Call α)) : Args α := cs.foldl Call.apply empty

def replaced (a : Args α) : List (Call α) → List α
  | [] => []
  | c :: cs => (c.replaced? a).toList ++ replaced (c.apply a) cs

def pushed (cs : List (Call α)) : List α := cs.filterMap Call.pushed?

/-- The names in the order of their first use. -/
def names (cs : List (Call α)) : List String := ((cs.filterMap Call.bound?).map Prod.fst).eraseDups

def lastUnder (name : String) (cs : List (Call α)) : Option α :=
  (cs.filterMap fun c => c.bound?.bind fun p => if p.1 = name then some p.2 else none).getLast?

theorem ofCalls_concat (cs : List (Call α)) (c : Call α) :
    ofCalls (cs ++ [c]) = c.apply (ofCalls cs) := by
  rw [ofCalls, List.foldl_append]
  rfl

theorem pushed_concat (cs : List (Call α)) (c : Call α) :
    pushed (cs ++ [c]) = pushed cs ++ c.pushed?.toList := by
  cases c <;> simp [pushed, Call.pushed?]

theorem eraseDups_concat (l : List String) (s : String) :
    (l ++ [s]).eraseDups = if s ∈ l then l.eraseDups else l.eraseDups ++ [s] := by
  rw [List.eraseDups_append, List.removeAll]
  by_cases h : s ∈ l
  · simp [h]
  · simp [h, List.eraseDups_cons]

theorem names_concat_push (cs : List (Call α)) (x : α) : names (cs ++ [.push x]) = names cs := by
  simp [names, Call.bound?, List.filterMap_cons]

theorem names_concat_set (cs : List (Call α)) (name : String) (x : α) :
    names (cs ++ [.set name x]) = if name ∈ names cs then names cs else names cs ++ [name] := by
  have h : ((cs ++ [Call.set name x]).filterMap Call.bound?).map Prod.fst =
      (cs.filterMap Call.bound?).map Prod.fst ++ [name] := by
    simp [Call.bound?]
  rw [names, h, eraseDups_concat]
  simp only [names, List.mem_eraseDups]

theorem lastUnder_concat_push (cs : List (Call α)) (name : String) (x : α) :
    lastUnder name (cs ++ [.push x]) = lastUnder name cs := by
  simp [lastUnder, Call.bound?]

theorem lastUnder_concat_set (cs : List (Call α)) (name m : String) (x : α) :
    lastUnder m (cs ++ [.set name x]) = if name = m then some x else lastUnder m cs := by
  by_cases h : name = m
  · simp [lastUnder, Call.bound?, h]
  · simp [lastUnder, Call.bound?, h]

theorem keys_assign (name : String) (x : α) (kw : List (String × α)) :
    (assign name x kw).map Prod.fst =
      if name ∈ kw.map Prod.fst then kw.map Prod.fst else kw.map Prod.fst ++ [name] := by
  induction kw with
  | nil => rfl
  | cons p rest ih =>
    obtain ⟨n, y⟩ := p
    by_cases h : n = name
    · simp [assign, h]
    · rw [assign, if_neg h, List.map_cons, ih]
      simp only [List.map_cons, List.mem_cons, Ne.symm h, false_or]
      split <;> rfl

theorem lookup_assign_of_ne (h : m ≠ name) (x : α) (kw : List (String × α)) :
    (assign name x kw).lookup m = kw.lookup m := by
  induction kw with
  | nil => simp [assign, List.lookup_cons, beq_false_of_ne h]
  | cons p rest ih =>
    obtain ⟨n, y⟩ := p
    by_cases hn : n = name
    · simp [assign, hn, List.lookup_cons, beq_false_of_ne h]
    · rw [assign, if_neg hn, List.lookup_cons, List.lookup_cons, ih]

theorem mem_iff_lookup (h : (kw.map Prod.fst).Nodup) :
    (name, x) ∈ kw ↔ kw.lookup name = some x := by
  induction kw with
  | nil => simp
  | cons p rest ih =>
    obtain ⟨n, y⟩ := p
    rw [List.map_cons, List.nodup_cons] at h
    by_cases hn : name = n
    · subst hn
      have hno : (name, x) ∉ rest := fun hm => h.1 (List.mem_map.mpr ⟨_, hm, rfl⟩)
      simp [hno, eq_comm]
    · rw [List.mem_cons, List.lookup_cons, beq_false_of_ne hn, ih h.2]
      simp [hn]

theorem positional_ofCalls (cs : List (Call α)) : (ofCalls cs).positional = pushed cs := by
  induction cs using List.reverseRecOn with
  | nil => rfl
  | append_singleton cs c ih =>
    rw [ofCalls_concat, pushed_concat, ← ih]
    cases c with
    | push x => rfl
    | set name x => exact (List.append_nil _).symm

theorem keys_ofCalls (cs : List (Call α)) :
    (ofCalls cs).keywords.map Prod.fst = names cs ∧ (names cs).Nodup := by
  induction cs using List.reverseRecOn with
  | nil => exact ⟨rfl, List.nodup_nil⟩
  | append_singleton cs c ih =>
    obtain ⟨hk, hd⟩ := ih
    rw [ofCalls_concat]
    cases c with
    | push x => rw [names_concat_push]; exact ⟨hk, hd⟩
    | set name x =>
      rw [names_concat_set, Call.apply, setKeyword, keys_assign, hk]
      refine ⟨rfl, ?_⟩
      split
      · exact hd
      · next hn => exact List.concat_eq_append ▸ hd.concat hn

theorem keyword?_ofCalls (cs : List (Call α)) (name : String) :
    (ofCalls cs).keyword? name = lastUnder name cs := by
  induction cs using List.reverseRecOn with
  | nil => rfl
  | append_singleton cs c ih =>
    rw [ofCalls_concat]
    cases c with
    | push x => rw [lastUnder_concat_push]; exact ih
    | set n x =>
      rw [lastUnder_concat_set, Call.apply, ← ih]
      by_cases h : n = name
      · rw [if_pos h, ← h, keyword?_setKeyword_self]
      · rw [if_neg h]
        exact lookup_assign_of_ne (Ne.symm h) x _

theorem keywords_ofCalls (cs : List (Call α)) :
    (ofCalls cs).keywords = (names cs).filterMap fun n => (lastUnder n cs).map (n, ·) := by
  obtain ⟨hk, hd⟩ := keys_ofCalls cs
  have hp (p : String × α) (hm : p ∈ (ofCalls cs).keywords) :
      (lastUnder p.1 cs).map (p.1, ·) = some p := by
    rw [← keyword?_ofCalls, keyword?, (mem_iff_lookup (hk ▸ hd)).mp hm]
    rfl
  rw [← hk, List.filterMap_map]
  exact List.filterMap_some.symm.trans (List.filterMap_congr hp).symm

example : ofCalls [.set "k" 1, .push 5, .set "j" 2, .set "k" 3] = ⟨[5], [("k", 3), ("j", 2)]⟩ := by
  decide

theorem perm_assign (name : String) (x : α) (kw : List (String × α)) :
    (x :: kw.map Prod.snd).Perm
      ((assign name x kw).map Prod.snd ++ (kw.lookup name).toList) := by
  induction kw with
  | nil => simp [assign]
  | cons p rest ih =>
    obtain ⟨n, y⟩ := p
    by_cases h : n = name
    · subst h
      rw [assign, if_pos rfl, List.lookup_cons_self]
      exact .cons x (@List.perm_append_comm _ [y] _)
    · rw [assign, if_neg h, List.lookup_cons, beq_false_of_ne (Ne.symm h)]
      exact (List.Perm.swap y x _).trans (.cons y ih)

theorem perm_apply (a : Args α) (c : Call α) :
    (c.value :: a.values).Perm ((c.apply a).values ++ (c.replaced? a).toList) := by
  cases c with
  | push x =>
    simp only [Call.value, Call.apply, Call.replaced?, values, push, Option.toList_none,
      List.append_nil, List.append_assoc]
    exact List.perm_middle.symm
  | set name x =>
    simp only [Call.value, Call.apply, Call.replaced?, values, setKeyword, keyword?,
      List.append_assoc]
    exact List.perm_middle.symm.trans (.append_left _ (perm_assign name x a.keywords))

theorem perm_foldl (a : Args α) (cs : List (Call α)) :
    (cs.map Call.value ++ a.values).Perm
      ((cs.foldl Call.apply a).values ++ replaced a cs) := by
  induction cs generalizing a with
  | nil => simp [replaced]
  | cons c cs ih =>
    have hcall : (cs.map Call.value ++ c.value :: a.values).Perm
        (cs.map Call.value ++ (c.apply a).values ++ (c.replaced? a).toList) := by
      rw [List.append_assoc]
      exact .append_left _ (perm_apply a c)
    have hrest := (ih (c.apply a)).append_right (c.replaced? a).toList
    rw [List.append_assoc _ (replaced _ _)] at hrest
    exact List.perm_middle.symm.trans
      (hcall.trans (hrest.trans (.append_left _ List.perm_append_comm)))

/-- Each value that was given is in the payload or was put out, as often as it was given. -/
theorem perm_ofCalls (cs : List (Call α)) :
    (cs.map Call.value).Perm ((ofCalls cs).values ++ replaced empty cs) := by
  have h := perm_foldl empty cs
  rwa [show (empty : Args α).values = [] from rfl, List.append_nil] at h

end Switchyard.Args
