import Switchyard.Lock.Contended

/-!
# Exclusion under contention

However the threads take turns, the lock belongs to the thread that has guards, and its depth counts
them. In two places the owner has none: after it has exchanged the owner and before it writes the
depth, and after it has taken the last guard from the depth and before it writes the owner.
-/

namespace Switchyard.Lock

namespace Rival

/-- The guards of the thread that the depth counts. One that is about to go is among them. -/
def outstanding (r : Rival) : Nat := r.guards + if r.stage = .leaving then 1 else 0

def Holds (r : Rival) : Prop := 0 < r.outstanding ∨ r.stage = .claimed ∨ r.stage = .freeing

/-- What the thread has read of the lock is true, and it remembers what it found. -/
def Fits (r : Rival) : Prop :=
  match r.stage with
  | .claiming | .claimed | .freeing => r.guards = 0
  | .deepening | .reading => 0 < r.guards
  | .heldAnswer b => b = decide (0 < r.guards)
  | .depthAnswer n => n = r.guards
  | _ => True

end Rival

namespace Contest

variable {c c' : Contest} {t u : ThreadId} {k : Call} {r : Rival} {s : Stage}

@[simp] theorem lock_put : (c.put t r).lock = c.lock := rfl

@[simp] theorem rivals_put_self : (c.put t r).rivals t = r := by simp [put]

theorem put_put (c : Contest) (l : Lock) (t : ThreadId) (r r' : Rival) :
    put t r' ⟨l, (c.put t r).rivals⟩ = put t r' ⟨l, c.rivals⟩ := by
  simp only [put, mk.injEq, true_and]
  funext u
  split <;> rfl

theorem rivals_put_of_ne (h : u ≠ t) : (c.put t r).rivals u = c.rivals u := by simp [put, h]

/-- The lock is with the thread that holds it, and its depth counts that thread's guards. -/
structure Fair (c : Contest) : Prop where
  nobody : c.rivals 0 = {}
  owner : ∀ t, t ≠ 0 → (c.lock.owner = t ↔ (c.rivals t).Holds)
  depth : c.lock.depth = (c.rivals c.lock.owner).outstanding
  fits : ∀ t, (c.rivals t).Fits

theorem fair_start : Fair {} where
  nobody := rfl
  owner t ht := iff_of_false (Ne.symm ht) (by simp [Rival.Holds, Rival.outstanding])
  depth := rfl
  fits t := trivial

namespace Fair

theorem put (h : c.Fair) (ht : t ≠ 0) (hs : r.outstanding = (c.rivals t).outstanding)
    (hh : r.Holds ↔ (c.rivals t).Holds) (hf : r.Fits) : (c.put t r).Fair where
  nobody := by rw [rivals_put_of_ne (Ne.symm ht), h.nobody]
  owner u hu := by
    by_cases he : u = t
    · subst he
      rw [rivals_put_self, lock_put, hh, h.owner u hu]
    · rw [rivals_put_of_ne he, lock_put, h.owner u hu]
  depth := by
    by_cases he : c.lock.owner = t
    · rw [lock_put, he, rivals_put_self, hs, h.depth, he]
    · rw [lock_put, rivals_put_of_ne he, h.depth]
  fits u := by
    by_cases he : u = t
    · rw [he, rivals_put_self]
      exact hf
    · rw [rivals_put_of_ne he]
      exact h.fits u

theorem deepen (h : c.Fair) (ht : t ≠ 0) (ho : (c.rivals t).Holds) (hh : r.Holds) (hf : r.Fits) :
    ({ c with lock.depth := r.outstanding }.put t r).Fair where
  nobody := by rw [rivals_put_of_ne (Ne.symm ht)]; exact h.nobody
  owner u hu := by
    by_cases he : u = t
    · subst he
      rw [rivals_put_self]
      exact iff_of_true ((h.owner u hu).mpr ho) hh
    · rw [rivals_put_of_ne he]
      exact h.owner u hu
  depth := by
    have he : c.lock.owner = t := (h.owner t ht).mpr ho
    simp only [lock_put, he, rivals_put_self]
  fits u := by
    by_cases he : u = t
    · rw [he, rivals_put_self]
      exact hf
    · rw [rivals_put_of_ne he]
      exact h.fits u

theorem claim (h : c.Fair) (ht : t ≠ 0) (ho : c.lock.owner = 0) (hg : (c.rivals t).guards = 0) :
    ({ c with lock.owner := t }.put t ⟨.claimed, (c.rivals t).guards⟩).Fair where
  nobody := by rw [rivals_put_of_ne (Ne.symm ht)]; exact h.nobody
  owner u hu := by
    by_cases he : u = t
    · subst he
      rw [rivals_put_self]
      exact iff_of_true rfl (.inr (.inl rfl))
    · rw [rivals_put_of_ne he]
      refine iff_of_false (Ne.symm he) fun hu' => hu ?_
      rw [← (h.owner u hu).mpr hu', ho]
  depth := by
    have hd := h.depth
    rw [ho, h.nobody] at hd
    simp only [lock_put, rivals_put_self, hd]
    simp [Rival.outstanding, hg]
  fits u := by
    by_cases he : u = t
    · rw [he, rivals_put_self]
      exact hg
    · rw [rivals_put_of_ne he]
      exact h.fits u

theorem free (h : c.Fair) (ht : t ≠ 0) (hs : (c.rivals t).stage = .freeing) :
    ({ c with lock.owner := 0 }.put t ⟨.idle, (c.rivals t).guards⟩).Fair := by
  have hg : (c.rivals t).guards = 0 := by
    have hf := h.fits t
    simpa only [Rival.Fits, hs] using hf
  have ho : c.lock.owner = t := (h.owner t ht).mpr (.inr (.inr hs))
  refine ⟨?_, fun u hu => ?_, ?_, fun u => ?_⟩
  · rw [rivals_put_of_ne (Ne.symm ht)]
    exact h.nobody
  · by_cases he : u = t
    · subst he
      rw [rivals_put_self]
      exact iff_of_false (Ne.symm hu) (by simp [Rival.Holds, Rival.outstanding, hg])
    · rw [rivals_put_of_ne he]
      refine iff_of_false (Ne.symm hu) fun hu' => he ?_
      rw [← (h.owner u hu).mpr hu', ho]
  · have hd : c.lock.depth = 0 := by
      rw [h.depth, ho]
      simp [Rival.outstanding, hg, hs]
    simp only [lock_put, rivals_put_of_ne (Ne.symm ht), hd]
    rw [show ({ c with lock.owner := 0 } : Contest).rivals 0 = {} from h.nobody]
    rfl
  · by_cases he : u = t
    · rw [he, rivals_put_self]
      trivial
    · rw [rivals_put_of_ne he]
      exact h.fits u

theorem isHeldBy (h : c.Fair) (ht : t ≠ 0) (hl : (c.rivals t).stage ≠ .leaving)
    (hc : (c.rivals t).stage ≠ .claimed) (hf : (c.rivals t).stage ≠ .freeing) :
    c.lock.isHeldBy t = decide (0 < (c.rivals t).guards) := by
  have ho := h.owner t ht
  simp only [Rival.Holds, Rival.outstanding, hl, hc, hf, if_false, or_false, Nat.add_zero] at ho
  rw [Lock.isHeldBy, Bool.eq_iff_iff, beq_iff_eq, decide_eq_true_iff, ho]

theorem call (h : c.Fair) (ht : t ≠ 0) (hi : (c.rivals t).stage = .idle)
    (hc : c.call t k = some c') : c'.Fair := by
  have turn (s : Stage) (hl : s ≠ .leaving) (hc : s ≠ .claimed) (hf : s ≠ .freeing)
      (hs : (⟨s, (c.rivals t).guards⟩ : Rival).Fits) : (c.turn t s).Fair :=
    h.put ht (by simp [Rival.outstanding, hi, hl])
      (by simp [Rival.Holds, Rival.outstanding, hi, hl, hc, hf]) hs
  unfold Contest.call at hc
  split at hc
  · cases hc
    exact turn _ (by simp) (by simp) (by simp) trivial
  · cases hc
  · rename_i n hg
    cases hc
    refine h.put ht ?_ ?_ trivial
    · simp [Rival.outstanding, hi, hg]
    · simp [Rival.Holds, Rival.outstanding, hi, hg]
  · cases hc
    exact turn _ (by simp) (by simp) (by simp) trivial
  · cases hc
    exact turn _ (by simp) (by simp) (by simp) trivial

theorem proceed (h : c.Fair) (ht : t ≠ 0) : (c.proceed t).Fair := by
  have hfit := h.fits t
  have hheld := h.isHeldBy ht
  -- A stage in which the thread holds the lock only if it has guards.
  have turn (s : Stage) (h₁ : (c.rivals t).stage ≠ .leaving ∧ (c.rivals t).stage ≠ .claimed ∧
      (c.rivals t).stage ≠ .freeing) (h₂ : s ≠ .leaving ∧ s ≠ .claimed ∧ s ≠ .freeing)
      (hs : (⟨s, (c.rivals t).guards⟩ : Rival).Fits) : (c.turn t s).Fair :=
    h.put ht (by simp [Rival.outstanding, h₁, h₂]) (by simp [Rival.Holds, Rival.outstanding, h₁, h₂]) hs
  unfold Contest.proceed
  cases hs : (c.rivals t).stage with
  | idle => exact h
  | checking =>
    simp only [hs] at hheld
    have hh := hheld (by simp) (by simp) (by simp)
    refine turn _ (by simp [hs]) (by split <;> simp) ?_
    rw [hh]
    rcases Nat.eq_zero_or_pos (c.rivals t).guards with hg | hg
    · simp [hg, Rival.Fits]
    · simp [hg, Rival.Fits]
  | claiming =>
    simp only [hs, Rival.Fits] at hfit
    dsimp only
    split
    · rename_i ho
      exact h.claim ht ho hfit
    · exact h
  | claimed =>
    simp only [hs, Rival.Fits] at hfit
    have hd : (⟨.idle, (c.rivals t).guards + 1⟩ : Rival).outstanding = 1 := by simp [Rival.outstanding, hfit]
    have hn := h.deepen (r := ⟨.idle, (c.rivals t).guards + 1⟩) ht (.inr (.inl hs))
      (.inl (by simp [Rival.outstanding])) trivial
    rwa [hd] at hn
  | deepening =>
    simp only [hs, Rival.Fits] at hfit
    have ho : (c.rivals t).Holds := .inl (Nat.add_pos_left hfit _)
    have hd : (⟨.idle, (c.rivals t).guards + 1⟩ : Rival).outstanding = c.lock.depth + 1 := by
      rw [h.depth, (h.owner t ht).mpr ho]
      simp [Rival.outstanding, hs]
    have hn := h.deepen (r := ⟨.idle, (c.rivals t).guards + 1⟩) ht ho
      (.inl (by simp [Rival.outstanding])) trivial
    rwa [hd] at hn
  | leaving =>
    have ho : (c.rivals t).Holds := .inl (by simp [Rival.outstanding, hs])
    have hd : c.lock.depth = (c.rivals t).guards + 1 := by
      rw [h.depth, (h.owner t ht).mpr ho]
      simp [Rival.outstanding, hs]
    have hn (s : Stage) (hs : s ≠ .leaving) (hh : (⟨s, (c.rivals t).guards⟩ : Rival).Holds)
        (hf : (⟨s, (c.rivals t).guards⟩ : Rival).Fits) :
        ({ c with lock.depth := c.lock.depth - 1 }.turn t s).Fair := by
      have hn := h.deepen (r := ⟨s, (c.rivals t).guards⟩) ht ho hh hf
      have he : (⟨s, (c.rivals t).guards⟩ : Rival).outstanding = c.lock.depth - 1 := by
        simp [Rival.outstanding, hs, hd]
      rwa [he] at hn
    dsimp only
    split
    · rename_i h₁
      have hg : (c.rivals t).guards = 0 := by omega
      exact hn _ (by simp) (.inr (.inr rfl)) hg
    · rename_i h₁
      exact hn _ (by simp) (.inl (by simp [Rival.outstanding]; omega)) trivial
  | freeing => exact h.free ht hs
  | asking =>
    simp only [hs] at hheld
    exact turn _ (by simp [hs]) (by simp) (hheld (by simp) (by simp) (by simp))
  | measuring =>
    simp only [hs] at hheld
    have hh := hheld (by simp) (by simp) (by simp)
    refine turn _ (by simp [hs]) (by split <;> simp) ?_
    rw [hh]
    rcases Nat.eq_zero_or_pos (c.rivals t).guards with hg | hg
    · simp [hg, Rival.Fits]
    · simp [hg, Rival.Fits]
  | reading =>
    simp only [hs, Rival.Fits] at hfit
    have ho : (c.rivals t).Holds := .inl (Nat.add_pos_left hfit _)
    refine turn _ (by simp [hs]) (by simp) ?_
    change c.lock.depth = (c.rivals t).guards
    rw [h.depth, (h.owner t ht).mpr ho]
    simp [Rival.outstanding, hs]
  | heldAnswer b | depthAnswer n => exact turn _ (by simp [hs]) (by simp) trivial

end Fair

theorem Reached.fair (h : c.Reached) : c.Fair := by
  induction h with
  | start => exact fair_start
  | call _ ht hi hc ih => exact ih.call ht hi hc
  | proceed _ ht _ ih => exact ih.proceed ht
  | misfire _ _ ih => exact ih

/-- A thread that takes the lock while no other goes on takes it as in one step, or waits. -/
theorem proceed_ensure (c : Contest) (t : ThreadId) :
    (((c.turn t .checking).proceed t).proceed t).proceed t =
      match c.lock.ensure? t with
      | some m => { c with lock := m }.put t ⟨.idle, (c.rivals t).guards + 1⟩
      | none => c.turn t .claiming := by
  have hc : (c.turn t .checking).proceed t =
      c.turn t (if c.lock.isHeldBy t then .deepening else .claiming) := by
    simp only [proceed, turn, rivals_put_self, lock_put]
    exact put_put ..
  rw [hc, Lock.ensure?]
  by_cases h₁ : c.lock.isHeldBy t = true
  · simp only [h₁, if_true, proceed, turn, rivals_put_self, lock_put]
    exact put_put ..
  · simp only [h₁, if_false, Bool.false_eq_true]
    by_cases h₂ : c.lock.owner = 0
    · simp only [h₂, if_true, proceed, turn, rivals_put_self, lock_put]
      exact (put_put ..).trans (put_put ..)
    · simp only [h₂, if_false, proceed, turn, rivals_put_self, lock_put]

theorem proceed_dropGuard (c : Contest) (t : ThreadId) (n : Nat) :
    ((c.put t ⟨.leaving, n⟩).proceed t).proceed t =
      { c with lock := c.lock.release }.put t ⟨.idle, n⟩ := by
  by_cases h : c.lock.depth = 1
  · simp only [proceed, turn, rivals_put_self, lock_put, h, if_true, Lock.release]
    exact (put_put ..).trans (put_put ..)
  · simp only [proceed, turn, rivals_put_self, lock_put, h, if_false, Lock.release]
    exact put_put ..

/-- However the threads take turns: only one of them has guards; while nobody is taking or dropping
one, the owner and the depth tell who has how many; a guard that goes is counted in the depth, and
the lock is given up after the last one; and each thread is told the number of its own guards. -/
theorem Reached.excludes (h : c.Reached) :
    (∀ t u, 0 < (c.rivals t).outstanding → 0 < (c.rivals u).outstanding → t = u) ∧
    ((∀ t, (c.rivals t).stage.isBusy = false) →
      (∀ t, 0 < (c.rivals t).guards →
        c.lock.owner = t ∧ c.lock.depth = (c.rivals t).guards) ∧
      ((∀ t, (c.rivals t).guards = 0) → c.lock.owner = 0 ∧ c.lock.depth = 0)) ∧
    (∀ t, (c.rivals t).stage = .leaving → 0 < c.lock.depth) ∧
    (∀ t, (c.rivals t).stage = .freeing → ∀ u, (c.rivals u).outstanding = 0) ∧
    (∀ t b, (c.rivals t).stage = .heldAnswer b → b = decide (0 < (c.rivals t).guards)) ∧
    ∀ t n, (c.rivals t).stage = .depthAnswer n → n = (c.rivals t).guards := by
  have hf := h.fair
  have hne (t : ThreadId) (hr : c.rivals t ≠ {}) : t ≠ 0 := fun he => hr (he ▸ hf.nobody)
  have howner (t : ThreadId) (hh : (c.rivals t).Holds) : c.lock.owner = t := by
    refine (hf.owner t (hne t fun he => ?_)).mpr hh
    rw [he] at hh
    simp [Rival.Holds, Rival.outstanding] at hh
  refine ⟨fun t u ht hu => ?_, fun hb => ⟨fun t ht => ?_, fun hg => ?_⟩, fun t ht => ?_,
    fun t ht u => ?_, fun t b ht => ?_, fun t n ht => ?_⟩
  · rw [← howner t (.inl ht), ← howner u (.inl hu)]
  · have hl : (c.rivals t).stage ≠ .leaving := fun he => by simpa [he, Stage.isBusy] using hb t
    have ho : (c.rivals t).outstanding = (c.rivals t).guards := by simp [Rival.outstanding, hl]
    have he := howner t (.inl (ho ▸ ht))
    exact ⟨he, by rw [hf.depth, he, ho]⟩
  · have ho (t : ThreadId) : (c.rivals t).outstanding = 0 := by
      have hl : (c.rivals t).stage ≠ .leaving := fun he => by simpa [he, Stage.isBusy] using hb t
      simp [Rival.outstanding, hg t, hl]
    refine ⟨Classical.byContradiction fun h₀ => ?_, by rw [hf.depth, ho]⟩
    have hbusy := hb c.lock.owner
    rcases (hf.owner _ h₀).mp rfl with hh | hh | hh
    · simp [ho] at hh
    · simp [hh, Stage.isBusy] at hbusy
    · simp [hh, Stage.isBusy] at hbusy
  · have hp : 0 < (c.rivals t).outstanding := by simp [Rival.outstanding, ht]
    rw [hf.depth, howner t (.inl hp)]
    exact hp
  · refine Nat.eq_zero_of_not_pos fun hu => ?_
    obtain rfl : t = u := (howner t (.inr (.inr ht))).symm.trans (howner u (.inl hu))
    have hg := hf.fits t
    simp only [Rival.Fits, ht] at hg
    simp [Rival.outstanding, ht, hg] at hu
  · simpa only [Rival.Fits, ht] using hf.fits t
  · simpa only [Rival.Fits, ht] using hf.fits t

/-- The first thread has two guards, and the second one tries to take the lock. -/
theorem Reached.excludes_waiting : ∃ c : Contest, c.Reached ∧ (c.rivals 1).guards = 2 ∧
    (c.rivals 2).stage = .claiming ∧ ∀ u, 0 < (c.rivals u).outstanding → u = 1 := by
  have h₁ : Contest.Reached _ := Reached.start.call (t := 1) (k := .ensure) (by decide) rfl rfl
  have h₂ := ((h₁.proceed (t := 1) (by decide) (by decide)).proceed (t := 1) (by decide)
    (by decide)).call (t := 2) (k := .ensure) (by decide) rfl rfl
  have h₃ := ((h₂.proceed (t := 2) (by decide) (by decide)).proceed (t := 1) (by decide)
    (by decide)).call (t := 1) (k := .ensure) (by decide) rfl rfl
  have h₄ := ((h₃.proceed (t := 1) (by decide) (by decide)).proceed (t := 2) (by decide)
    (by decide)).proceed (t := 1) (by decide) (by decide)
  exact ⟨_, h₄, by decide, by decide, fun u hu => h₄.excludes.1 u 1 hu (by decide)⟩

end Contest

end Switchyard.Lock
