import Switchyard.Proofs.View

/-!
# Lineages

The parent links above a greenlet lead along its lineage, if they come to an end. A greenlet that
moves under another one keeps an end above it, unless the other one is below.
-/

namespace Switchyard

namespace World

variable {w w' : World} {r p : Ref} {l : List Ref}

/-- The greenlets above `r` are those of the list, the nearest first. -/
inductive Lineage (w : World) : Ref → List Ref → Prop where
  | root {r : Ref} (h : w.parent r = none) : w.Lineage r []
  | link {r p : Ref} {l : List Ref} (h : w.parent r = some p) (hl : w.Lineage p l) :
      w.Lineage r (p :: l)

namespace Lineage

theorem unique (h : w.Lineage r l) {l' : List Ref} (h' : w.Lineage r l') : l = l' := by
  induction h generalizing l' with
  | root h₀ =>
    cases h' with
    | root => rfl
    | link h₁ => simp [h₀] at h₁
  | link h₀ _ ih =>
    cases h' with
    | root h₁ => simp [h₀] at h₁
    | link h₁ hl =>
      obtain rfl := Option.some.inj (h₀.symm.trans h₁)
      rw [ih hl]

theorem of_mem (h : w.Lineage r l) (hp : p ∈ l) :
    ∃ l', w.Lineage p l' ∧ l'.length < l.length := by
  induction h with
  | root => cases hp
  | @link _ q l _ hl ih =>
    rcases List.mem_cons.mp hp with rfl | hp
    · exact ⟨l, hl, Nat.lt_succ_self _⟩
    · obtain ⟨l', hl', hlt⟩ := ih hp
      exact ⟨l', hl', Nat.lt_succ_of_lt hlt⟩

theorem exists_child (h : w.Lineage r l) (hp : p ∈ l) : ∃ q, w.parent q = some p := by
  induction h with
  | root => cases hp
  | link h₀ _ ih =>
    rcases List.mem_cons.mp hp with rfl | hp
    · exact ⟨_, h₀⟩
    · exact ih hp

theorem notMem (h : w.Lineage r l) : r ∉ l := by
  intro hr
  obtain ⟨l', h', hlt⟩ := h.of_mem hr
  rw [h.unique h'] at hlt
  exact Nat.lt_irrefl _ hlt

theorem nodup (h : w.Lineage r l) : l.Nodup := by
  induction h with
  | root => exact List.nodup_nil
  | link _ hl ih => exact List.nodup_cons.mpr ⟨hl.notMem, ih⟩

theorem congr (h : w.Lineage r l) (hp : ∀ q, q = r ∨ q ∈ l → w'.parent q = w.parent q) :
    w'.Lineage r l := by
  induction h with
  | root h₀ => exact .root ((hp _ (.inl rfl)).trans h₀)
  | link h₀ _ ih =>
    refine .link ((hp _ (.inl rfl)).trans h₀) (ih fun q hq => hp q (.inr ?_))
    exact List.mem_cons.mpr hq

theorem cut (h : w.Lineage r l) (hp : ∀ q, w'.parent q = w.parent q ∨ w'.parent q = none) :
    ∃ l', w'.Lineage r l' := by
  induction h with
  | @root r h₀ =>
    refine ⟨[], .root ?_⟩
    rcases hp r with h | h
    · exact h.trans h₀
    · exact h
  | @link r _ _ h₀ _ ih =>
    rcases hp r with h | h
    · obtain ⟨l', hl'⟩ := ih
      exact ⟨_, .link (h.trans h₀) hl'⟩
    · exact ⟨[], .root h⟩

theorem move {q : Ref} {lp : List Ref} (h : w.Lineage q l) (hl : w.Lineage p lp) (hne : p ≠ r)
    (hr : r ∉ lp) (hnew : w'.parent r = some p)
    (hold : ∀ q, q ≠ r → w'.parent q = w.parent q) : ∃ l', w'.Lineage q l' := by
  have hp : w'.Lineage p lp := hl.congr fun q hq => hold q fun he => by
    subst he
    exact hq.elim (fun h => hne h.symm) hr
  have hrp : w'.Lineage r (p :: lp) := .link hnew hp
  induction h with
  | @root q h₀ =>
    by_cases hq : q = r
    · exact ⟨_, hq ▸ hrp⟩
    · exact ⟨[], .root ((hold q hq).trans h₀)⟩
  | @link q _ _ h₀ _ ih =>
    by_cases hq : q = r
    · exact ⟨_, hq ▸ hrp⟩
    · obtain ⟨l', hl'⟩ := ih
      exact ⟨_, .link ((hold q hq).trans h₀) hl'⟩

/-- A bounded walk that comes to the end has seen the whole lineage. -/
theorem notMem_of_findAncestor (h : w.Lineage p l) {n : Nat}
    (hf : w.findAncestor (· == r) n p = .ok none) : r ∉ l := by
  induction h generalizing n with
  | root => exact List.not_mem_nil
  | @link _ q l h₀ _ ih =>
    cases n with
    | zero => simp [World.findAncestor, h₀] at hf
    | succ n =>
      simp only [World.findAncestor, h₀] at hf
      split at hf
      · cases hf
      · rename_i hq
        refine List.not_mem_cons_of_ne_of_not_mem (fun he => hq ?_) (ih hf)
        exact beq_iff_eq.mpr he.symm

end Lineage

end World

end Switchyard
