import Switchyard.Proofs.Effect.Basic
import Switchyard.Proofs.Ownership.Ledger

/-!
# References that may be copied

Whoever claims to be the only one that refers to an object has a reference to it. The references
that come without such a claim are spare: if there is one, nobody makes the claim, and the object
may get further references.
-/

namespace Switchyard

/-- A claim to be the only one comes with a reference. -/
def Token.Paired (l : List Token) : Prop := ∀ r, l.count (.sole r) ≤ l.count (.object r)

/-- The references to `r` without a claim. -/
def Token.surplus (r : Ref) (l : List Token) : Nat := l.count (.object r) - l.count (.sole r)

namespace Token

variable {l l' : List Token} {r : Ref}

theorem Paired.append (h : Paired l) (h' : Paired l') : Paired (l ++ l') := fun r => by
  have := h r
  have := h' r
  simp only [List.count_append]
  omega

theorem Paired.of_notMem (h : ∀ r, .sole r ∉ l) : Paired l := fun r => by
  rw [List.count_eq_zero_of_not_mem (h r)]
  exact Nat.zero_le _

theorem paired_nil : Paired [] := .of_notMem fun _ => by simp

theorem Paired.flatMap {α : Type} {f : α → List Token} {xs : List α}
    (h : ∀ x ∈ xs, Paired (f x)) : Paired (xs.flatMap f) := by
  induction xs with
  | nil => exact paired_nil
  | cons x xs ih =>
    rw [List.flatMap_cons]
    exact (h x (by simp)).append (ih fun y hy => h y (by simp [hy]))

theorem paired_queued (r : Ref) : Paired (queued r) := fun q => by
  by_cases h : r = q <;> simp [queued, h]

theorem surplus_append (h : Paired l) (h' : Paired l') :
    surplus r (l ++ l') = surplus r l + surplus r l' := by
  have := h r
  have := h' r
  simp only [surplus, List.count_append]
  omega

theorem surplus_of_notMem (h : .sole r ∉ l) : surplus r l = l.count (.object r) := by
  simp [surplus, List.count_eq_zero_of_not_mem h]

theorem count_object (h : Paired l) :
    l.count (.object r) = l.count (.sole r) + surplus r l := by
  have := h r
  simp only [surplus]
  omega

end Token

open Token

theorem World.sole_notMem_slotTokens {r : Ref} (o : Option Object) : .sole r ∉ slotTokens o := by
  cases o with
  | none => simp [slotTokens]
  | some o => exact o.notMem_tokens (by simp) (by simp)

theorem Task.paired_tokens (t : Task) : Paired t.tokens := by
  cases t with
  | release h r => exact paired_queued r
  | answer outcome => exact .of_notMem fun r => by cases outcome <;> simp [tokens]
  | _ => exact .of_notMem fun r => by simp [tokens]

theorem Item.paired_tokens (i : Item Task) : Paired i.tokens := by
  cases i with
  | task t => exact t.paired_tokens
  | base f forced => exact paired_nil

theorem Item.paired_tokensOf (s : List (Item Task)) : Paired (tokensOf s) :=
  .flatMap fun i _ => i.paired_tokens

theorem Task.paired_tokensOf (ts : List Task) : Paired (tokensOf ts) :=
  .flatMap fun t _ => t.paired_tokens

theorem Thread.paired_tokens (t : Thread) : Paired t.tokens := by
  refine (Paired.append (Item.paired_tokensOf _) ?_).append ?_ <;>
    exact .of_notMem fun r => by simp [Slot.tokens]

theorem Fiber.paired_tokens (s : Fiber Task) : Paired s.tokens := by
  unfold Fiber.tokens Phase.tokens
  cases s.phase with
  | fresh entry discard => exact Task.paired_tokensOf entry
  | parked stack => exact Item.paired_tokensOf stack
  | _ => exact paired_nil

theorem Hub.paired_tokens (s : Hub) : Paired s.tokens := by
  refine (Paired.append (Paired.append (.of_notMem fun r => ?_) (.of_notMem fun r => by simp))
    (.flatMap fun r _ => paired_queued r)).append (.flatMap fun r _ => paired_queued r)
  split <;> simp

namespace World

variable {w w' : World} {hand hand' : List Token} {r : Ref}

def spare (w : World) (r : Ref) : Nat :=
  total (fun t : Thread => surplus r t.tokens) w.threads +
    total (fun s : Fiber Task => surplus r s.tokens) w.fibers +
    total (fun s : Hub => surplus r s.tokens) w.hubs +
    total (fun o => surplus r (slotTokens o)) w.heap + surplus r w.tableTokens

theorem demand_object (w : World) (r : Ref) :
    w.demand (.object r) = w.demand (.sole r) + w.spare r := by
  have ht := total_add (fun t : Thread => t.tokens.count (.object r))
    (fun t => t.tokens.count (.sole r)) (fun t => surplus r t.tokens)
    (fun t => count_object t.paired_tokens) w.threads
  have hf := total_add (fun s : Fiber Task => s.tokens.count (.object r))
    (fun s => s.tokens.count (.sole r)) (fun s => surplus r s.tokens)
    (fun s => count_object s.paired_tokens) w.fibers
  have hh := total_add (fun s : Hub => s.tokens.count (.object r))
    (fun s => s.tokens.count (.sole r)) (fun s => surplus r s.tokens)
    (fun s => count_object s.paired_tokens) w.hubs
  have ho := total_add (fun o => (slotTokens o).count (.object r))
    (fun o => (slotTokens o).count (.sole r)) (fun o => surplus r (slotTokens o))
    (fun o => count_object (.of_notMem fun _ => sole_notMem_slotTokens o)) w.heap
  have hb := count_object (r := r) (.of_notMem fun _ => notMem_tableTokens (by simp) (by simp) w)
  simp only [demand, spare]
  omega

namespace Covers

variable {K : Token → Prop}

theorem sole_le_one (hR : K (.object r)) (hS : K (.sole r)) (hc : Covers K hand w) :
    w.demand (.sole r) + hand.count (.sole r) ≤ 1 ∧
      (0 < w.demand (.sole r) + hand.count (.sole r) →
        w.demand (.object r) + hand.count (.object r) ≤ 1) := by
  have ho := hc (.object r) hR
  have hs := hc (.sole r) hS
  rw [supply_object] at ho
  simp only [supply] at hs
  cases h : w.object? r with
  | none => simp [h] at hs; omega
  | some o =>
    rw [count_of_some h] at ho
    by_cases h₁ : o.count = 1
    · simp [h, Object.supply, h₁] at hs
      omega
    · simp [h, Object.supply, h₁] at hs
      omega

theorem no_sole (hR : K (.object r)) (hS : K (.sole r)) (hc : Covers K hand w)
    (hr : 0 < w.spare r ∨ .object r ∈ hand) (hs : .sole r ∉ hand) :
    w.demand (.sole r) + hand.count (.sole r) = 0 := by
  obtain ⟨-, h₂⟩ := hc.sole_le_one hR hS
  have hd := demand_object w r
  have hz := List.count_eq_zero_of_not_mem hs
  rcases hr with hr | hr
  · omega
  · have := List.count_pos_iff.mpr hr
    omega

theorem copy (hR : K (.object r)) (hc : Covers K hand w) (hr : 0 < w.spare r ∨ .object r ∈ hand)
    (hs : K (.sole r) → .sole r ∉ hand) : Covers K (.object r :: hand) (w.retain r) := by
  refine hc.retain hR ?_ fun hS => hc.no_sole hR hS hr (hs hS)
  have hd := demand_object w r
  rcases hr with hr | hr
  · omega
  · have := List.count_pos_iff.mpr hr
    omega

end Covers

namespace Covered

theorem sole_le_one (hc : Covered hand w) :
    w.demand (.sole r) + hand.count (.sole r) ≤ 1 ∧
      (0 < w.demand (.sole r) + hand.count (.sole r) →
        w.demand (.object r) + hand.count (.object r) ≤ 1) :=
  Covers.sole_le_one (K := (·.isBacked = true)) rfl rfl hc

theorem no_sole (hc : Covered hand w) (hr : 0 < w.spare r ∨ .object r ∈ hand)
    (hs : .sole r ∉ hand) : w.demand (.sole r) + hand.count (.sole r) = 0 :=
  Covers.no_sole (K := (·.isBacked = true)) rfl rfl hc hr hs

theorem copy (hc : Covered hand w) (hr : 0 < w.spare r ∨ .object r ∈ hand)
    (hs : .sole r ∉ hand) : Covered (.object r :: hand) (w.retain r) :=
  Covers.copy (K := (·.isBacked = true)) rfl hc hr fun _ => hs

end Covered

theorem spare_of_thread {i : Nat} {t : Thread} (ht : w.threads[i]? = some t)
    (hr : 0 < surplus r t.tokens) : 0 < w.spare r := by
  have := le_total (fun t : Thread => surplus r t.tokens) ht
  simp only [spare]
  omega

theorem spare_of_hub {h : HubId} {s : Hub} (hs : w.hubs[h]? = some s)
    (hr : 0 < surplus r s.tokens) : 0 < w.spare r := by
  have := le_total (fun s : Hub => surplus r s.tokens) hs
  simp only [spare]
  omega

theorem spare_of_table (hr : .object r ∈ w.tableTokens) : 0 < w.spare r := by
  have := surplus_of_notMem (r := r) (notMem_tableTokens (by simp) (by simp) w)
  have := List.count_pos_iff.mpr hr
  simp only [spare]
  omega

theorem spare_of_greenlet {q : Ref} {g : Greenlet} (hg : w.greenlet? q = some g)
    (hr : .object r ∈ g.tokens) : 0 < w.spare r := by
  obtain ⟨n, ho⟩ := greenlet?_eq_some_iff.mp hg
  have hh : w.heap[q]? = some (some ⟨n, .greenlet g⟩) := by
    unfold object? at ho
    cases hh : w.heap[q]? with
    | none => simp [hh] at ho
    | some x => simpa [hh] using ho
  have hl : surplus r g.tokens ≤ total (fun o => surplus r (slotTokens o)) w.heap :=
    le_total (fun o => surplus r (slotTokens o)) hh
  have hs := surplus_of_notMem (r := r) (g.notMem_tokens (by simp) (by simp))
  have := List.count_pos_iff.mpr hr
  simp only [spare]
  omega

theorem spare_of_parent {q : Ref} (h : w.parent q = some r) : 0 < w.spare r := by
  unfold World.parent at h
  cases hg : w.greenlet? q with
  | none =>
    rw [greenlet_of_none hg] at h
    cases h
  | some g =>
    rw [greenlet_of_some hg] at h
    refine spare_of_greenlet hg ?_
    simp [Greenlet.tokens, h]

theorem spare_of_main {h : HubId} (hh : h < w.hubs.size) (hd : (w.hub h).disposed = false) :
    0 < w.spare (w.hub h).main ∧ 0 < w.spare (w.hub h).current := by
  have hs : w.hubs[h]? = some (w.hub h) := by
    rw [Array.getElem?_eq_getElem hh, hub_of_some (Array.getElem?_eq_getElem hh)]
  have key (r : Ref) (hr : r = (w.hub h).main ∨ r = (w.hub h).current) :
      0 < surplus r (w.hub h).tokens := by
    unfold Hub.tokens
    rw [hd, surplus_append _ (.flatMap fun r _ => paired_queued r),
      surplus_append _ (.flatMap fun r _ => paired_queued r),
      surplus_append (.of_notMem fun _ => by simp) (.of_notMem fun _ => by simp)]
    · have : 0 < surplus r [.object (w.hub h).main, .object (w.hub h).current] := by
        rw [surplus_of_notMem (by simp)]
        exact List.count_pos_iff.mpr (by rcases hr with rfl | rfl <;> simp)
      simp only [Bool.false_eq_true, if_false]
      omega
    · exact (Paired.of_notMem fun _ => by simp).append (.of_notMem fun _ => by simp)
    · exact ((Paired.of_notMem fun _ => by simp).append (.of_notMem fun _ => by simp)).append
        (.flatMap fun r _ => paired_queued r)
  exact ⟨spare_of_hub hs (key _ (.inl rfl)), spare_of_hub hs (key _ (.inr rfl))⟩

end World

end Switchyard
