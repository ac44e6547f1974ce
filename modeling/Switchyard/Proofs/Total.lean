import Switchyard.Machine

/-!
# Totals

The sum of a measure over all entries of a list or an array, and what an update of one entry
changes.
-/

namespace Switchyard

section Total

variable {α : Type} (F : α → Nat)

def tally : List α → Nat
  | [] => 0
  | x :: xs => F x + tally xs

@[simp] theorem tally_nil : tally F [] = 0 := rfl

@[simp] theorem tally_cons (x : α) (xs : List α) : tally F (x :: xs) = F x + tally F xs := rfl

private theorem tally_append (xs ys : List α) : tally F (xs ++ ys) = tally F xs + tally F ys := by
  induction xs with
  | nil => simp
  | cons x xs ih =>
    simp only [List.cons_append, tally_cons, ih]
    omega

private theorem tally_map {β : Type} (g : β → α) (l : List β) :
    tally F (l.map g) = tally (fun x => F (g x)) l := by
  induction l with
  | nil => rfl
  | cons x xs ih => simp only [List.map_cons, tally_cons, ih]

def total (xs : Array α) : Nat := tally F xs.toList

private theorem tally_modify (g : α → α) {x : α} (l : List α) (i : Nat) (h : l[i]? = some x) :
    tally F (l.modify i g) + F x = tally F l + F (g x) := by
  induction l generalizing i with
  | nil => simp at h
  | cons y ys ih =>
    cases i with
    | zero =>
      obtain rfl : y = x := by simpa using h
      simp only [List.modify_zero_cons, tally_cons]
      omega
    | succ i =>
      have := ih i (by simpa using h)
      simp only [List.modify_succ_cons, tally_cons]
      omega

theorem total_modify {xs : Array α} {i : Nat} {x : α} (h : xs[i]? = some x) (g : α → α) :
    total F (xs.modify i g) + F x = total F xs + F (g x) := by
  simpa [total, Array.toList_modify] using
    tally_modify F g xs.toList i (by simpa using h)

theorem modify_eq_self {xs : Array α} {i : Nat} (h : xs[i]? = none) (g : α → α) :
    xs.modify i g = xs := by
  apply Array.ext_getElem?
  intro j
  rw [Array.getElem?_modify]
  split
  · subst_vars; simp [h]
  · rfl

@[simp] theorem total_push (xs : Array α) (x : α) : total F (xs.push x) = total F xs + F x := by
  simp [total, tally_append]

theorem total_map {β : Type} (g : β → α) (xs : Array β) :
    total F (xs.map g) = total (fun x => F (g x)) xs := by
  simp only [total, Array.toList_map, tally_map]

private theorem le_tally {x : α} : ∀ {l : List α}, x ∈ l → F x ≤ tally F l
  | y :: ys, h => by
    simp only [tally_cons]
    rcases List.mem_cons.mp h with rfl | h
    · omega
    · have := le_tally h
      omega

theorem le_total {xs : Array α} {i : Nat} {x : α} (h : xs[i]? = some x) : F x ≤ total F xs :=
  le_tally F (List.mem_of_getElem? (by simpa using h : xs.toList[i]? = some x))

private theorem exists_of_tally_pos : ∀ {l : List α}, 0 < tally F l → ∃ x ∈ l, 0 < F x
  | [], h => absurd h (Nat.lt_irrefl 0)
  | y :: ys, h => by
    simp only [tally_cons] at h
    by_cases hy : 0 < F y
    · exact ⟨y, by simp, hy⟩
    · obtain ⟨x, hx, hF⟩ := exists_of_tally_pos (l := ys) (by omega)
      exact ⟨x, List.mem_cons_of_mem y hx, hF⟩

theorem exists_of_total_pos {xs : Array α} (h : 0 < total F xs) :
    ∃ (i : Nat) (x : α), xs[i]? = some x ∧ 0 < F x := by
  obtain ⟨x, hx, hF⟩ := exists_of_tally_pos F h
  obtain ⟨i, hi⟩ := List.mem_iff_getElem?.mp hx
  exact ⟨i, x, by simpa using hi, hF⟩

theorem total_pos_iff_any {xs : Array α} {p : α → Bool} (hp : ∀ x, p x = true ↔ 0 < F x) :
    0 < total F xs ↔ xs.any p = true := by
  rw [Array.any_eq_true]
  constructor
  · intro h
    obtain ⟨i, x, hi, hF⟩ := exists_of_total_pos F h
    obtain ⟨hlt, rfl⟩ := Array.getElem?_eq_some_iff.mp hi
    exact ⟨i, hlt, (hp _).mpr hF⟩
  · rintro ⟨i, hlt, hi⟩
    exact Nat.lt_of_lt_of_le ((hp _).mp hi) (le_total F (Array.getElem?_eq_getElem hlt))

theorem total_eq_zero_of_forall (h : ∀ x, F x = 0) (xs : Array α) : total F xs = 0 := by
  refine Nat.eq_zero_of_not_pos fun hn => ?_
  obtain ⟨i, x, -, hF⟩ := exists_of_total_pos F hn
  exact absurd (h x) (Nat.ne_of_gt hF)

private theorem tally_eq_zero : ∀ (l : List α), (∀ i : Nat, (l[i]?.map F).getD 0 = 0) →
    tally F l = 0
  | [], _ => rfl
  | x :: xs, h => by
    have h₀ : F x = 0 := h 0
    have := tally_eq_zero xs fun i => h (i + 1)
    simp [h₀, this]

private theorem tally_congr {β : Type} (G : β → Nat) : ∀ (l : List α) (l' : List β),
    (∀ i : Nat, (l[i]?.map F).getD 0 = (l'[i]?.map G).getD 0) → tally F l = tally G l'
  | [], l', h => (tally_eq_zero G l' fun i => (h i).symm).symm
  | l, [], h => tally_eq_zero F l h
  | x :: xs, y :: ys, h => by
    have h₀ : F x = G y := h 0
    have := tally_congr G xs ys fun i => h (i + 1)
    simp [h₀, this]

private theorem tally_add (G H : α → Nat) (h : ∀ x, F x = G x + H x) :
    ∀ l : List α, tally F l = tally G l + tally H l
  | [] => rfl
  | x :: xs => by
    have := tally_add G H h xs
    simp only [tally_cons, h x]
    omega

theorem total_add (G H : α → Nat) (h : ∀ x, F x = G x + H x) (xs : Array α) :
    total F xs = total G xs + total H xs :=
  tally_add F G H h xs.toList

private theorem tally_of_single {x : α} : ∀ (l : List α) (i : Nat), l[i]? = some x →
    (∀ j y, l[j]? = some y → j ≠ i → F y = 0) → tally F l = F x
  | y :: ys, 0, hi, hz => by
    obtain rfl : y = x := by simpa using hi
    have ht : tally F ys = 0 := tally_eq_zero F ys fun j => by
      cases hj : ys[j]? with
      | none => rfl
      | some z => exact hz (j + 1) z (by simpa using hj) (Nat.succ_ne_zero j)
    rw [tally_cons, ht, Nat.add_zero]
  | y :: ys, i + 1, hi, hz => by
    have h₀ : F y = 0 := hz 0 y rfl (Nat.succ_ne_zero i).symm
    rw [tally_cons, h₀, Nat.zero_add]
    exact tally_of_single ys i (by simpa using hi) fun j z hj hne =>
      hz (j + 1) z (by simpa using hj) fun he => hne (Nat.succ.inj he)

theorem total_of_single {xs : Array α} {i : Nat} {x : α} (hi : xs[i]? = some x)
    (hz : ∀ (j : Nat) y, xs[j]? = some y → j ≠ i → F y = 0) : total F xs = F x :=
  tally_of_single F xs.toList i (by simpa using hi) fun j y hj => hz j y (by simpa using hj)

theorem total_congr {β : Type} (G : β → Nat) (xs : Array α) (ys : Array β)
    (h : ∀ i : Nat, (xs[i]?.map F).getD 0 = (ys[i]?.map G).getD 0) : total F xs = total G ys :=
  tally_congr F G xs.toList ys.toList fun i => by simpa using h i

end Total

end Switchyard
