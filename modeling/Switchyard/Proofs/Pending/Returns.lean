import Switchyard.Proofs.Pending.Run
import Switchyard.Proofs.Pending.Step

/-!
# Where returned errors come from

An error that is on its way to an operation was put there by a step of the run. That step registered
it. If nothing takes the pending failure meanwhile, the slot of the thread holds it when the
operation returns, or holds the failure that was there before.
-/

namespace Switchyard

namespace World

variable {e : SwitchError} {w₀ u w : World} {tr tr₁ tr₂ : List World} {i k : Nat} {r : Ref}
  {f : Failure}

theorem Starts.returning (hs : w.Starts) (i : Nat) : w.returning i = [] := by
  have key {v : World} {ts : List Task} (hv : v.threads = #[{}]) (ha : v.active = 1)
      (ht : ts.all Task.isSilent = true) : (v.push ts).returning i = [] := by
    have hw : v.Seated := by simp [Seated, hv, ha]
    have hn : v.returning i = [] := by
      unfold World.returning stackAt
      rw [hv]
      rcases i with _ | i <;> rfl
    rw [returning_push hw, Item.refusals_silent ht, hn]
    split <;> rfl
  cases hs with
  | script => exact key rfl rfl rfl
  | rally => exact key rfl rfl rfl

/-- The step from `u` put an answer with `e` on the stack of the thread at place `i`, where more than
`k` of them have been since. -/
structure Since (e : SwitchError) (i k : Nat) (u : World) (tr : List World) : Prop where
  before : (u.returning i).count e ≤ k
  after : ∀ v ∈ tr, k < (v.returning i).count e
  /-- The thread registered the error, unless the step took up a stack that had been set aside with
  the answer on it. -/
  cause : TakesUp e u u.next ∨ u.active - 1 = i ∧ Raises e u u.next

theorem Run.origin (hs : w₀.Starts) (h : Run w₀ tr w) (hk : k < (w.returning i).count e) :
    ∃ tr₂ u tr₁, tr = tr₂ ++ u :: tr₁ ∧ Run w₀ tr₁ u ∧ u.isHalted = false ∧
      Run u.next tr₂ w ∧ Since e i k u tr₂ := by
  induction h with
  | start =>
    rw [hs.returning] at hk
    cases hk
  | @step tr v h hv ih =>
    by_cases hkv : k < (v.returning i).count e
    · obtain ⟨tr₂, u, tr₁, rfl, h₁, hu, h₂, hc⟩ := ih hkv
      refine ⟨v :: tr₂, u, tr₁, rfl, h₁, hu, h₂.step hv, hc.before, ?_, hc.cause⟩
      exact List.forall_mem_cons.mpr ⟨hkv, hc.after⟩
    · refine ⟨[], v, tr, rfl, h, hv, .start, Nat.le_of_not_lt hkv, by simp, ?_⟩
      obtain ⟨home, hl⟩ := h.locked hs
      have hg := gives_next e hl.manned hv
      have hlt := Nat.not_le.mpr (Nat.lt_of_le_of_lt (Nat.le_of_not_lt hkv) hk)
      by_cases hi : i = v.active - 1
      · subst hi
        exact (hg.own.resolve_left hlt).imp_right fun hr => ⟨rfl, hr⟩
      · exact .inl ((hg.others i hi).resolve_left hlt)
  | yield h hi hn ih =>
    obtain ⟨tr₂, u, tr₁, he, h₁, hu, h₂, hc⟩ := ih hk
    exact ⟨tr₂, u, tr₁, he, h₁, hu, h₂.yield hi hn, hc⟩

theorem Latched.failureAt (hl : w.Latched) (hk : Kept [] w) (hi : w.pendingAt i = .full r)
    (ht : w.Tells r f) : w.failureAt i = some f := by
  obtain ⟨n, f', -, ho⟩ := hl.object? hk hi
  obtain rfl := Value.failure.inj (ht _ ho)
  simp [World.failureAt, hi, Slot.get?, failureOf, valueD, ho]

/-- A registered error stays in the slot of its thread, or the failure that was there before. -/
theorem Raises.stays (hs : w₀.Starts) (h₁ : Run w₀ tr₁ u) (hu : u.isHalted = false)
    (h : Run u.next tr₂ w) (hr : Raises e u u.next)
    (hc : ∀ v ∈ tr₂, v.active - 1 = u.active - 1 → v.clearing = false) :
    w.pendingAt (u.active - 1) = .gone ∨
      w.failureAt (u.active - 1) = some ((u.failureAt (u.active - 1)).getD (.ofError e)) := by
  have h₂ : Run w₀ (u :: tr₁) u.next := h₁.step hu
  have hku := h₁.kept hs
  have hl := h₁.latched hs
  have hl₂ := h₂.latched hs
  have hlw := (h₂.append h).latched hs
  have hst := Run.latches hs h₂ hl₂ h
  have hcl := Run.clings hs h₂ h hc
  have hp : u.pendingAt (u.active - 1) = u.thread.pending := pendingAt_active hku.seated
  -- Whatever is in the slot after the step is there at the end, and tells the same.
  have key {r : Ref} {f : Failure} (hf : u.next.pendingAt (u.active - 1) = .full r)
      (ht : u.next.Tells r f) :
      w.pendingAt (u.active - 1) = .gone ∨ w.failureAt (u.active - 1) = some f := by
    rcases hcl.full r hf with hw | hg
    · exact .inr (hlw.failureAt ((h₂.append h).kept hs) hw (hst.tells r f (hl₂.slotted _ _ hf) ht))
    · exact .inl hg
  cases hv : u.thread.pending with
  | vacant =>
    obtain ⟨r, hf, ho⟩ := hr.vacant hv
    have hn : u.failureAt (u.active - 1) = none := by
      simp [World.failureAt, hp, hv, Slot.get?]
    rw [hn]
    refine key hf fun o ho' => ?_
    obtain rfl := Option.some.inj (ho.symm.trans ho')
    rfl
  | full r =>
    have hf : u.pendingAt (u.active - 1) = .full r := hp.trans hv
    obtain ⟨f, ht⟩ := hl.tells _ _ hf
    obtain ⟨home, hk⟩ := h₁.locked hs
    have hst' := hku.latches hk.manned hu hl.slotted
    rw [hl.failureAt hku hf ht]
    exact key ((hr.kept (by simp [hv])).trans hv) (hst'.tells r f (hl.slotted _ _ hf) ht)
  | gone => exact .inl (hcl.gone ((hr.kept (by simp [hv])).trans hv))

end World

end Switchyard
