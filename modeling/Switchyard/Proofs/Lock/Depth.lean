import Switchyard.Proofs.Lock.Control
import Switchyard.Proofs.Lock.Steps

/-!
# The depth of the lock

The lock is held once for every destruction that is not through, by the thread on whose stacks
these destructions lie.
-/

namespace Switchyard

open World

def World.unfinished (w : World) : Nat :=
  total (fun t => Item.marks t.stack) w.threads + total (fun s => Item.marks s.items) w.fibers +
    tally Item.marks w.lost

/-- How many control stacks the fiber runs on. -/
def World.baseCount (w : World) (f : FiberId) : Nat :=
  total (fun t => (Item.bases t.stack).count (f, false)) w.threads

/-- `n` destructions are accounted for outside of all stacks. -/
structure Locked (home : FiberId → ThreadId) (n : Nat) (w : World) : Prop where
  manned : w.Manned
  depth : w.lock.depth = w.unfinished + n
  free : w.lock.owner = 0 ↔ w.lock.depth = 0
  pending : 0 < n → w.lock.owner = w.active
  stackAt : ∀ i, Fits home w.fibers.size w.lock.owner (i + 1) (w.stackAt i)
  saved : ∀ (f : FiberId) s, w.fibers[f]? = some s →
    Saved home w.fibers.size w.lock.owner (home f) s
  pins : ∀ r p, (w.greenlet r).fiber = some p → p.value < w.fibers.size ∧ home p.value = p.owner
  once : ∀ f, w.baseCount f ≤ 1
  running : ∀ f, 0 < w.baseCount f → (w.fiberD f).isActive = true

namespace Locked

variable {w w' : World} {home home' : FiberId → ThreadId} {n m : Nat}

private theorem total_threads {G : List (Item Task) → Nat} (h₀ : G [] = 0)
    (h : ∀ i, G (w'.stackAt i) = G (w.stackAt i)) :
    total (fun t => G t.stack) w'.threads = total (fun t => G t.stack) w.threads := by
  refine total_congr _ _ _ _ fun i => ?_
  have := h i
  unfold World.stackAt at this
  cases ht : w.threads[i]? <;> cases ht' : w'.threads[i]? <;> simp_all

theorem tame (h : Locked home n w) (ht : Tame w w') (hn : n = 0 ∨ w'.active = w.active) :
    Locked home n w' := by
  have hm : total (fun t => Item.marks t.stack) w'.threads =
      total (fun t => Item.marks t.stack) w.threads :=
    total_threads rfl fun i => (ht.stackAt i).marks
  have hb (f : FiberId) : w'.baseCount f = w.baseCount f :=
    total_threads (G := fun s => (Item.bases s).count (f, false)) rfl fun i => by
      rw [(ht.stackAt i).bases]
  have hu : w'.unfinished = w.unfinished := by simp only [unfinished, hm, ht.fibers, ht.lost]
  refine ⟨ht.manned h.manned, ?_, ?_, fun hpos => ?_, fun i => ?_, fun f s hs => ?_,
    fun r p hp => ?_, fun f => ?_, fun f hf => ?_⟩
  · rw [ht.lock, hu]
    exact h.depth
  · rw [ht.lock]
    exact h.free
  · rcases hn with rfl | hn
    · omega
    · rw [ht.lock, hn]
      exact h.pending hpos
  · rw [ht.lock, ht.fibers]
    exact (h.stackAt i).similar (ht.stackAt i)
  · rw [ht.fibers] at hs
    rw [ht.lock, ht.fibers]
    exact h.saved f s hs
  · rw [ht.fibers]
    exact h.pins r p (ht.pins r p hp)
  · rw [hb]
    exact h.once f
  · rw [hb] at hf
    rw [fiberD_eq, ht.fibers, ← fiberD_eq]
    exact h.running f hf

private theorem stack_at (hw : w.Seated) : w.active - 1 + 1 = w.active := by
  have := hw.1
  unfold ThreadId at *
  omega

theorem stack (h : Locked home n w) :
    Fits home w.fibers.size w.lock.owner w.active w.thread.stack := by
  have := h.stackAt (w.active - 1)
  rwa [← stack_eq_stackAt, stack_at h.manned.seated] at this

private theorem total_setStack (hw : w.Seated) (G : List (Item Task) → Nat)
    (s : List (Item Task)) :
    total (fun t => G t.stack) (w.setStack s).threads + G w.thread.stack =
      total (fun t => G t.stack) w.threads + G s :=
  total_modify (fun t : Thread => G t.stack) hw.getElem? fun t => { t with stack := s }

theorem setStack (h : Locked home n w) {s : List (Item Task)}
    (hf : Fits home w.fibers.size w.lock.owner w.active s)
    (hb : Item.bases s = Item.bases w.thread.stack)
    (hm : Item.marks s + m = Item.marks w.thread.stack + n)
    (hp : 0 < m → w.lock.owner = w.active) : Locked home m (w.setStack s) := by
  have hs := h.manned.seated
  have hbc (f : FiberId) : (w.setStack s).baseCount f = w.baseCount f := by
    have := total_setStack hs (fun s => (Item.bases s).count (f, false)) s
    simp only [hb] at this
    simp only [baseCount]
    omega
  refine ⟨h.manned.modifyThread fun _ => rfl, ?_, h.free, hp, fun i => ?_, h.saved, h.pins,
    fun f => ?_, fun f hpos => ?_⟩
  · have := total_setStack hs Item.marks s
    have hd := h.depth
    simp only [unfinished] at hd ⊢
    change w.lock.depth = _ + total _ w.fibers + tally Item.marks w.lost + m
    omega
  · rw [stackAt_setStack hs]
    split
    · subst_vars
      rw [stack_at hs]
      exact hf
    · exact h.stackAt i
  · rw [hbc]
    exact h.once f
  · rw [hbc] at hpos
    exact h.running f hpos

theorem pop (h : Locked home n w) {t : Task} {below : List (Item Task)}
    (hs : w.thread.stack = .task t :: below) :
    Locked home (n + if t.isUnlock = true then 1 else 0) (w.setStack below) := by
  have hf := h.stack
  rw [hs] at hf
  refine h.setStack ⟨fun f hx => hf.fibers f (by simp [hx]), fun p hx => hf.pins p (by simp [hx]),
    fun hx => hf.marks (by simp; omega)⟩ (by simp [hs]) (by simp [hs]; omega) fun hpos => ?_
  split at hpos
  · exact hf.marks (by simp [*])
  · exact h.pending hpos

theorem push (h : Locked home n w) {l : List Task}
    (hf : ∀ f ∈ Item.fibers (l.map .task), f < w.fibers.size ∧ home f = w.active)
    (hp : ∀ p ∈ Item.pins (l.map .task), p.value < w.fibers.size ∧ home p.value = p.owner)
    (hm : Item.marks (l.map .task) = n) : Locked home 0 (w.push l) := by
  have hfit : Fits home w.fibers.size w.lock.owner w.active (l.map .task) :=
    ⟨hf, hp, fun hpos => h.pending (by omega)⟩
  rw [push_eq_setStack h.manned.seated]
  refine h.setStack (Fits.append_iff.mpr ⟨hfit, h.stack⟩) (by simp) ?_ fun hpos => ?_
  · simp only [Item.marks_append]
    omega
  · exact absurd hpos (Nat.lt_irrefl 0)

theorem pushLight (h : Locked home 0 w) {ts : List Task} (ht : ts.all Task.isLight = true) :
    Locked home 0 (w.push ts) :=
  h.tame (.push h.manned.seated ht) (.inl rfl)

private theorem marks_le_unfinished (i : Nat) : Item.marks (w.stackAt i) ≤ w.unfinished := by
  unfold World.stackAt
  cases ht : w.threads[i]? with
  | none => exact Nat.zero_le _
  | some t =>
    have := le_total (fun t : Thread => Item.marks t.stack) ht
    simp only [unfinished, Option.map_some, Option.getD_some]
    omega

private theorem marks_items_le_unfinished {f : FiberId} {s : Fiber Task}
    (hs : w.fibers[f]? = some s) : Item.marks s.items ≤ w.unfinished := by
  have := le_total (fun s : Fiber Task => Item.marks s.items) hs
  simp only [unfinished]
  omega

private theorem fits_owner {size : Nat} {o o' i : ThreadId} {s : List (Item Task)}
    (h : Fits home size o i s) (ho : 0 < Item.marks s → o' = o) : Fits home size o' i s :=
  ⟨h.fibers, h.pins, fun hm => (ho hm).trans (h.marks hm)⟩

private theorem relock (h : Locked home n w) {l : Lock} (hd : l.depth = w.unfinished + m)
    (hf : l.owner = 0 ↔ l.depth = 0) (hp : 0 < m → l.owner = w.active)
    (ho : 0 < w.unfinished → l.owner = w.lock.owner) : Locked home m { w with lock := l } :=
  ⟨h.manned.of_eq rfl rfl, hd, hf, hp,
    fun i => fits_owner (h.stackAt i) fun (hm : 0 < Item.marks (w.stackAt i)) =>
      ho (Nat.lt_of_lt_of_le hm (marks_le_unfinished i)),
    fun f s (hs : w.fibers[f]? = some s) => by
      obtain ⟨h₁, h₂, h₃⟩ := h.saved f s hs
      exact ⟨fits_owner h₁ fun hm => ho (Nat.lt_of_lt_of_le hm (marks_items_le_unfinished hs)),
        h₂, h₃⟩,
    h.pins, h.once, h.running⟩

private theorem active_ne_zero (h : Locked home n w) : w.active ≠ 0 :=
  Nat.ne_of_gt h.manned.seated.1

theorem lock (h : Locked home 0 w) {l : Lock} (hl : w.lock.ensure? w.active = some l) :
    Locked home 1 { w with lock := l } := by
  have hd := h.depth
  have hf := h.free
  have ha := h.active_ne_zero
  simp only [Lock.ensure?, Lock.isHeldBy, beq_iff_eq] at hl
  split at hl
  · rename_i ho
    obtain rfl := Option.some.inj hl
    refine h.relock (by simp only; omega) ?_ (fun _ => ho) fun _ => rfl
    simp [ho, ha]
  · split at hl
    · rename_i ho
      obtain rfl := Option.some.inj hl
      have hz : w.unfinished = 0 := by have := hf.mp ho; omega
      refine h.relock (by simp [hz]) ?_ (fun _ => rfl) (by omega)
      simp [ha]
    · cases hl

theorem unlock (h : Locked home 1 w) : Locked home 0 w.unlock := by
  have hd := h.depth
  have hf := h.free
  have ho := h.pending Nat.one_pos
  have ha := h.active_ne_zero
  unfold World.unlock Lock.release
  split
  · refine h.relock (by simp only; omega) (by simp) (fun hp => absurd hp (Nat.lt_irrefl 0))
      (by omega)
  · refine h.relock (by simp only; omega) ?_ (fun hp => absurd hp (Nat.lt_irrefl 0))
      fun _ => rfl
    simp only [ho, ha, false_iff]
    omega

def others (w : World) (f : FiberId) : Nat :=
  w.baseCount f - (Item.bases w.thread.stack).count (f, false)

private theorem others_add (hw : w.Seated) (f : FiberId) :
    others w f + (Item.bases w.thread.stack).count (f, false) = w.baseCount f := by
  have := le_total (fun t : Thread => (Item.bases t.stack).count (f, false)) hw.getElem?
  simp only [others, baseCount] at this ⊢
  omega

theorem others_control (h : Locked home n w) (f : FiberId) :
    others w f + (Item.bases w.control.stack).count (f, false) = w.baseCount f :=
  others_add h.manned.seated f

theorem good (h : Locked home n w) :
    Control.Good home w.lock.owner w.active (others w) w.control where
  stack := h.stack
  saved := h.saved
  once f := by
    have := others_add h.manned.seated f
    have := h.once f
    simp only [World.control]
    omega
  running f hf := by
    refine h.running f ?_
    rw [← others_add h.manned.seated f]
    exact hf

theorem setControl (h : Locked home n w) {c : Control Task}
    (hg : Control.Good home' w.lock.owner w.active (others w) c)
    (hu : c.unfinished = w.control.unfinished) (hsize : w.fibers.size ≤ c.fibers.size)
    (hh : ∀ f < w.fibers.size, home' f = home f) : Locked home' n (w.setControl c) := by
  have hs := h.manned.seated
  have hbc (f : FiberId) : (w.setControl c).baseCount f =
      others w f + (Item.bases c.stack).count (f, false) := by
    have h₁ := total_setStack hs (fun s => (Item.bases s).count (f, false)) c.stack
    have h₂ := others_add hs f
    simp only [baseCount] at h₁ h₂ ⊢
    change total _ (w.setStack c.stack).threads = _
    omega
  have hm : (w.setStack c.stack).Manned := h.manned.modifyThread fun _ => rfl
  refine ⟨hm.of_eq rfl rfl, ?_, h.free, h.pending, fun i => ?_,
    hg.saved, fun r p hp => ?_, fun f => ?_, fun f hpos => ?_⟩
  · have h₁ := total_setStack hs Item.marks c.stack
    have hd := h.depth
    simp only [unfinished, Control.unfinished, World.control] at hd hu ⊢
    change w.lock.depth = total _ (w.setStack c.stack).threads + total _ c.fibers +
      tally Item.marks c.lost + n
    omega
  · change Fits home' c.fibers.size w.lock.owner (i + 1) ((w.setStack c.stack).stackAt i)
    rw [stackAt_setStack hs]
    split
    · subst_vars
      rw [stack_at hs]
      exact hg.stack
    · exact (h.stackAt i).rehome hh hsize
  · obtain ⟨h₁, h₂⟩ := h.pins r p hp
    exact ⟨Nat.lt_of_lt_of_le h₁ hsize, (hh _ h₁).trans h₂⟩
  · rw [hbc]
    exact hg.once f
  · rw [hbc] at hpos
    exact hg.running f hpos

theorem setControl_self (h : Locked home n w) {c : Control Task}
    (hc : Control.Good home w.lock.owner w.active (others w) c ∧
      c.unfinished = w.control.unfinished ∧ c.fibers.size = w.control.fibers.size) :
    Locked home n (w.setControl c) :=
  h.setControl hc.1 hc.2.1 (Nat.le_of_eq hc.2.2.symm) fun _ _ => rfl

theorem modifyFiber (h : Locked home n w) (f : FiberId) {u : Fiber Task → Fiber Task}
    (hu : ∀ s, (u s).phase = s.phase) : Locked home n (w.modifyFiber f u) := by
  have he := setControl_control h.manned.seated (fun c => c.modify f u) rfl
  have hl := h.setControl_self
    ⟨h.good.adjust hu, Control.unfinished_adjust _ f hu, Control.size_modify f u⟩
  rw [he] at hl
  exact hl

theorem takeControl (h : Locked home 0 w) {r : Control Task × Bool}
    (hc : Control.Good home w.lock.owner w.active (others w) r.1 ∧
      r.1.unfinished = w.control.unfinished ∧ r.1.fibers.size = w.control.fibers.size) :
    Locked home 0 (w.takeControl r) := by
  have hl := h.setControl_self hc
  unfold World.takeControl
  simp only
  split
  · exact hl.tame (.fail hl.manned.seated _) (.inl rfl)
  · exact hl

theorem unshare (h : Locked home 0 w) {f : FiberId} (hf : f < w.fibers.size)
    (hi : home f = w.active) : Locked home 0 (w.unshare f) :=
  h.takeControl (h.good.unshare hf hi _)

theorem dropPinned (h : Locked home 0 w) {p : Pinned FiberId}
    (hp : p.value < w.fibers.size ∧ home p.value = p.owner) : Locked home 0 (w.dropPinned p) := by
  unfold World.dropPinned
  split
  · rename_i f hg
    obtain ⟨ho, rfl⟩ := Pinned.get?_eq_some_iff.mp hg
    exact h.unshare hp.1 (hp.2.trans ho)
  · exact h

theorem unwind (h : Locked home 0 w) {f : FiberId} (hf : f < w.fibers.size)
    (hi : home f = w.active) : Locked home 0 (w.unwind f) := by
  unfold World.unwind
  have h₁ := h.modifyFiber f (u := fun s => { s with cancelling := true }) fun _ => rfl
  simp only
  split
  · exact h₁.tame (.write _ _) (.inl rfl)
  · have hf' : f < (w.modifyFiber f fun s => { s with cancelling := true }).fibers.size := by
      simpa [World.modifyFiber] using hf
    have h₂ := h₁.push (l := [.settle f]) (fun g hg => by
      obtain rfl : g = f := by simpa [Task.fibers] using hg
      exact ⟨hf', hi⟩) (by simp [Task.pins]) rfl
    exact h₂.takeControl (h₂.good.destroy hf' hi _)

theorem abandonStack (h : Locked home 0 w) (r : Ref) : Locked home 0 (w.abandonStack r).2 := by
  have h₁ : Locked home 0 (w.modifyGreenlet r fun g => { g with state := .dead, fiber := none }) :=
    h.tame (.unpin r fun _ => rfl) (.inl rfl)
  unfold World.abandonStack
  simp only
  split
  · exact h₁
  · rename_i p hp
    split
    · exact h₁
    · rename_i f hg
      obtain ⟨ho, rfl⟩ := Pinned.get?_eq_some_iff.mp hg
      obtain ⟨hf, hi⟩ := h.pins r p hp
      have ha := h₁.good.abandon hf
      have hu := ha.1.unshare (by rw [ha.2.2]; exact hf) (hi.trans ho)
        (w.modifyGreenlet r fun g => { g with state := .dead, fiber := none }).isPanicking
      exact h₁.setControl_self ⟨hu.1, hu.2.1.trans ha.2.1, hu.2.2.trans ha.2.2⟩

end Locked

end Switchyard
