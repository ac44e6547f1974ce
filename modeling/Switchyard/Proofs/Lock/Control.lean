import Switchyard.Proofs.Stack
import Switchyard.Proofs.Total

/-!
# Destructions on the stacks of fibers

Resuming, suspending and dropping a fiber move control stacks, and with them the destructions that
are under way on them. None is lost count of, and each stays with the thread of its fiber.
-/

namespace Switchyard

/-- What the stack of a fiber holds while it is on no control stack. -/
def Fiber.items (s : Fiber Task) : List (Item Task) :=
  match s.phase with
  | .fresh entry discard => (entry ++ discard).map .task
  | .parked stack => stack
  | .active | .ended | .taken => []

/-- A stack of thread `i`, while thread `owner` has the lock. `home` tells each fiber's thread. -/
structure Fits (home : FiberId → ThreadId) (size : Nat) (owner i : ThreadId)
    (s : List (Item Task)) : Prop where
  fibers : ∀ f ∈ Item.fibers s, f < size ∧ home f = i
  pins : ∀ p ∈ Item.pins s, p.value < size ∧ home p.value = p.owner
  marks : 0 < Item.marks s → owner = i

namespace Fits

variable {home : FiberId → ThreadId} {size : Nat} {owner i : ThreadId} {s s' : List (Item Task)}

theorem nil : Fits home size owner i [] := by constructor <;> simp

theorem append_iff : Fits home size owner i (s ++ s') ↔
    Fits home size owner i s ∧ Fits home size owner i s' := by
  constructor
  · intro h
    have hmarks : Item.marks s ≤ Item.marks (s ++ s') ∧ Item.marks s' ≤ Item.marks (s ++ s') := by
      rw [Item.marks_append]
      omega
    exact ⟨⟨fun f hf => h.fibers f (by simp [hf]), fun p hp => h.pins p (by simp [hp]),
        fun hm => h.marks (Nat.lt_of_lt_of_le hm hmarks.1)⟩,
      ⟨fun f hf => h.fibers f (by simp [hf]), fun p hp => h.pins p (by simp [hp]),
        fun hm => h.marks (Nat.lt_of_lt_of_le hm hmarks.2)⟩⟩
  · rintro ⟨h, h'⟩
    refine ⟨fun f hf => ?_, fun p hp => ?_, fun hm => ?_⟩
    · rw [Item.fibers_append] at hf
      exact (List.mem_append.mp hf).elim (h.fibers f) (h'.fibers f)
    · rw [Item.pins_append] at hp
      exact (List.mem_append.mp hp).elim (h.pins p) (h'.pins p)
    · rw [Item.marks_append] at hm
      by_cases hs : 0 < Item.marks s
      · exact h.marks hs
      · exact h'.marks (by omega)

theorem similar (hs : Item.Similar s s') (h : Fits home size owner i s) :
    Fits home size owner i s' :=
  ⟨fun f hf => h.fibers f (hs.fibers f hf), fun p hp => h.pins p (hs.pins p hp),
    fun hm => h.marks (hs.marks ▸ hm)⟩

theorem rehome {home' : FiberId → ThreadId} {size' : Nat} (hh : ∀ f < size, home' f = home f)
    (hs : size ≤ size') (h : Fits home size owner i s) : Fits home' size' owner i s where
  fibers f hf := by
    obtain ⟨h₁, h₂⟩ := h.fibers f hf
    exact ⟨Nat.lt_of_lt_of_le h₁ hs, (hh f h₁).trans h₂⟩
  pins p hp := by
    obtain ⟨h₁, h₂⟩ := h.pins p hp
    exact ⟨Nat.lt_of_lt_of_le h₁ hs, (hh _ h₁).trans h₂⟩
  marks := h.marks

end Fits

/-- A saved stack of thread `i`: no other fiber ends on it, and one that was never entered has
destroyed nothing. -/
structure Saved (home : FiberId → ThreadId) (size : Nat) (owner i : ThreadId)
    (s : Fiber Task) : Prop where
  fits : Fits home size owner i s.items
  bare : Item.bases s.items = []
  unentered : ∀ entry discard, s.phase = .fresh entry discard → Item.marks s.items = 0

namespace Control

variable {home : FiberId → ThreadId} {owner i : ThreadId} {b : FiberId → Nat} {c : Control Task}

/-- The destructions that are not through, on the control stack, on saved and on lost stacks. -/
def unfinished (c : Control Task) : Nat :=
  Item.marks c.stack + total (fun s => Item.marks s.items) c.fibers +
    tally Item.marks c.lost

/-- The control stack of thread `i` beside the fibers, when `b` counts the bases of each fiber on
the control stacks of other threads. -/
structure Good (home : FiberId → ThreadId) (owner i : ThreadId) (b : FiberId → Nat)
    (c : Control Task) : Prop where
  stack : Fits home c.fibers.size owner i c.stack
  saved : ∀ f s, c.fibers[f]? = some s → Saved home c.fibers.size owner (home f) s
  once : ∀ f, b f + (Item.bases c.stack).count (f, false) ≤ 1
  running : ∀ f, 0 < b f + (Item.bases c.stack).count (f, false) → (c.fiberD f).isActive = true

theorem split_eq {s above below : List (Item Task)} {f : FiberId} {forced : Bool}
    (h : split s = some (above, f, forced, below)) :
    s = above ++ .base f forced :: below ∧ Item.bases above = [] := by
  induction s generalizing above with
  | nil => cases h
  | cons x s ih =>
    cases x with
    | base g fc =>
      simp only [split, Option.some.injEq, Prod.mk.injEq] at h
      obtain ⟨rfl, rfl, rfl, rfl⟩ := h
      exact ⟨rfl, rfl⟩
    | task t =>
      simp only [split, Option.map_eq_some_iff] at h
      obtain ⟨⟨a, g, fc, bl⟩, hs, he⟩ := h
      simp only [Prod.mk.injEq] at he
      obtain ⟨rfl, rfl, rfl, rfl⟩ := he
      obtain ⟨rfl, hb⟩ := ih hs
      exact ⟨rfl, by simpa using hb⟩

theorem unfinished_modify {f : FiberId} (u : Fiber Task → Fiber Task)
    (h : f < c.fibers.size) :
    (c.modify f u).unfinished + Item.marks (c.fiberD f).items =
      c.unfinished + Item.marks (u (c.fiberD f)).items := by
  have := total_modify (fun s : Fiber Task => Item.marks s.items) (getElem?_fibers h) u
  simp only [unfinished, modify]
  omega

theorem Good.modify (hc : Good home owner i b c) {f : FiberId} {u : Fiber Task → Fiber Task}
    (hu : ∀ s, c.fibers[f]? = some s → Saved home c.fibers.size owner (home f) (u s))
    (ha : ∀ s, c.fibers[f]? = some s → 0 < b f + (Item.bases c.stack).count (f, false) →
      (u s).isActive = true) : Good home owner i b (c.modify f u) where
  stack := by simpa [Control.modify] using hc.stack
  saved g s hs := by
    rw [size_modify]
    simp only [Control.modify, Array.getElem?_modify] at hs
    split at hs
    · obtain ⟨s', hs', rfl⟩ := Option.map_eq_some_iff.mp hs
      subst_vars
      exact hu s' hs'
    · exact hc.saved g s hs
  once := hc.once
  running g hg := by
    rw [fiberD_modify]
    split
    · rename_i h
      obtain ⟨rfl, hf⟩ := h
      exact ha _ (getElem?_fibers hf) hg
    · exact hc.running g hg

theorem Good.adjust (hc : Good home owner i b c) {f : FiberId} {u : Fiber Task → Fiber Task}
    (hu : ∀ s, (u s).phase = s.phase) : Good home owner i b (c.modify f u) := by
  have hi (s : Fiber Task) : (u s).items = s.items := by simp [Fiber.items, hu s]
  refine hc.modify (fun s hs => ?_) fun s hs hb => ?_
  · obtain ⟨hf, hb, he⟩ := hc.saved f s hs
    exact ⟨by rwa [hi], by rwa [hi], fun e d hp => by rw [hi]; exact he e d (by rwa [hu] at hp)⟩
  · have := hc.running f hb
    rw [fiberD_of_some hs] at this
    simpa [Fiber.isActive, hu s] using this

theorem unfinished_adjust (c : Control Task) (f : FiberId) {u : Fiber Task → Fiber Task}
    (hu : ∀ s, (u s).phase = s.phase) : (c.modify f u).unfinished = c.unfinished := by
  by_cases hf : f < c.fibers.size
  · have := unfinished_modify u hf
    have hi : (u (c.fiberD f)).items = (c.fiberD f).items := by simp [Fiber.items, hu]
    rw [hi] at this
    omega
  · have hn : c.fibers[f]? = none := by simp [hf]
    unfold Control.modify
    rw [modify_eq_self hn]

private theorem items_of_active {s : Fiber Task} (h : s.isActive = true) : s.items = [] := by
  unfold Fiber.isActive at h
  unfold Fiber.items
  split at h
  · rename_i hp
    rw [hp]
  · cases h

private theorem taken_saved (size : Nat) {u : Fiber Task} (h : u.items = []) :
    Saved home size owner i u :=
  ⟨by rw [h]; exact .nil, by rw [h]; rfl, fun _ _ _ => by rw [h]; rfl⟩

theorem Good.count_eq_zero (hc : Good home owner i b c) {f : FiberId}
    (hf : (c.fiberD f).isActive = false) : b f + (Item.bases c.stack).count (f, false) = 0 := by
  by_contra h
  rw [hc.running f (Nat.pos_of_ne_zero h)] at hf
  cases hf

private theorem Good.mount (hc : Good home owner i b c) {f : FiberId} (hf : f < c.fibers.size)
    (hi : home f = i) {s : List (Item Task)} (hs : Fits home c.fibers.size owner i s)
    (hb : Item.bases s = []) {u : Fiber Task → Fiber Task} {forced : Bool}
    (hu : (u (c.fiberD f)).items = []) (ha : forced = false → (u (c.fiberD f)).isActive = true)
    (hr : (c.fiberD f).isActive = false) :
    Good home owner i b { c.modify f u with stack := s ++ .base f forced :: c.stack } := by
  have h₀ := hc.count_eq_zero hr
  have hm : Good home owner i b (c.modify f u) := by
    refine hc.modify (fun x hx => taken_saved _ ?_) fun x hx hpos => by omega
    rwa [← fiberD_of_some hx]
  refine ⟨?_, hm.saved, fun g => ?_, fun g hg => ?_⟩
  · simp only [size_modify]
    refine Fits.append_iff.mpr ⟨hs, ?_⟩
    exact ⟨fun g hg => (List.mem_cons.mp hg).elim (fun h => h ▸ ⟨hf, hi⟩) (hc.stack.fibers g),
      hc.stack.pins, fun h => hc.stack.marks (by simpa using h)⟩
  · have := hc.once g
    by_cases hg : f = g
    · subst hg
      cases forced <;> simp [hb] <;> omega
    · simpa [hb, List.count_cons, hg] using this
  · by_cases hg' : f = g
    · subst hg'
      cases forced with
      | false =>
        change ((c.modify f u).fiberD f).isActive = true
        rw [fiberD_modify, if_pos ⟨rfl, hf⟩]
        exact ha rfl
      | true =>
        have hn : (Item.bases (s ++ .base f true :: c.stack)).count (f, false) =
            (Item.bases c.stack).count (f, false) := by simp [hb]
        rw [hn, h₀] at hg
        exact absurd hg (Nat.lt_irrefl 0)
    · exact hm.running g (by simpa [hb, List.count_cons, hg', Control.modify] using hg)

private theorem unfinished_mount {f : FiberId} (hf : f < c.fibers.size) {s : List (Item Task)}
    {u : Fiber Task → Fiber Task} {forced : Bool} (hu : (u (c.fiberD f)).items = [])
    (hs : Item.marks s = Item.marks (c.fiberD f).items) :
    ({ c.modify f u with stack := s ++ .base f forced :: c.stack } : Control Task).unfinished =
      c.unfinished := by
  have := unfinished_modify u hf
  rw [hu] at this
  simp only [unfinished, Item.marks_append, Item.marks_base, Item.marks_nil] at this ⊢
  simp only [Control.modify] at this ⊢
  omega

theorem Good.resume (hc : Good home owner i b c) {f : FiberId} (hf : f < c.fibers.size)
    (hi : home f = i) {c' : Control Task} (h : c.resume f = some c') :
    Good home owner i b c' ∧ c'.unfinished = c.unfinished ∧ c'.fibers.size = c.fibers.size := by
  have hs := hc.saved f _ (getElem?_fibers hf)
  unfold Control.resume at h
  split at h
  · cases h
  · rename_i entry discard hp
    obtain rfl := Option.some.inj h
    have hit : (c.fiberD f).items = entry.map .task ++ discard.map .task := by
      simp [Fiber.items, hp]
    have hm := hs.unentered _ _ hp
    rw [hit, Item.marks_append] at hm
    have hfit := hs.fits
    have hbare := hs.bare
    rw [hit] at hfit hbare
    rw [hi] at hfit
    rw [Item.bases_append, List.append_eq_nil_iff] at hbare
    refine ⟨hc.mount hf hi (Fits.append_iff.mp hfit).1 hbare.1 rfl (fun _ => rfl) ?_, ?_, ?_⟩
    · simp [Fiber.isActive, hp]
    · exact unfinished_mount hf rfl (by rw [hit, Item.marks_append]; omega)
    · simp [Control.modify]
  · rename_i stack hp
    obtain rfl := Option.some.inj h
    have hit : (c.fiberD f).items = stack := by simp [Fiber.items, hp]
    have hfit := hs.fits
    have hbare := hs.bare
    rw [hit] at hfit hbare
    rw [hi] at hfit
    refine ⟨hc.mount hf hi hfit hbare rfl (fun _ => rfl) ?_, ?_, ?_⟩
    · simp [Fiber.isActive, hp]
    · exact unfinished_mount hf rfl (by rw [hit])
    · simp [Control.modify]
  · obtain rfl := Option.some.inj h
    exact ⟨hc, rfl, rfl⟩
  · obtain rfl := Option.some.inj h
    exact ⟨hc, rfl, rfl⟩

theorem Good.suspend (hc : Good home owner i b c) {c' : Control Task}
    (h : c.suspend = some c') :
    Good home owner i b c' ∧ c'.unfinished = c.unfinished ∧ c'.fibers.size = c.fibers.size := by
  simp only [Control.suspend, Option.map_eq_some_iff] at h
  obtain ⟨⟨above, f, forced, below⟩, hs, h⟩ := h
  obtain ⟨hst, hbare⟩ := split_eq hs
  have hfits := hc.stack
  rw [hst] at hfits
  obtain ⟨habove, hrest⟩ := Fits.append_iff.mp hfits
  obtain ⟨hf, hi⟩ := hrest.fibers f (by simp)
  have hbelow : Fits home c.fibers.size owner i below :=
    ⟨fun g hg => hrest.fibers g (by simp [hg]), fun p hp => hrest.pins p (by simpa using hp),
      fun hm => hrest.marks (by simpa using hm)⟩
  have hle (g : FiberId) :
      (Item.bases below).count (g, false) ≤ (Item.bases c.stack).count (g, false) := by
    simp only [hst, Item.bases_append, Item.bases_base, hbare, List.nil_append]
    exact List.count_le_count_cons
  cases forced with
  | true =>
    simp only [if_true] at h
    subst h
    refine ⟨⟨hbelow, hc.saved, fun g => ?_, fun g hg => hc.running g ?_⟩, ?_, rfl⟩
    · have := hc.once g
      have := hle g
      simp only
      omega
    · have := hle g
      simp only at hg
      omega
    · simp only [unfinished, hst, Item.marks_append, Item.marks_base, tally_cons]
      omega
  | false =>
    simp only [Bool.false_eq_true, if_false] at h
    subst h
    have hone := hc.once f
    have hcount : (Item.bases c.stack).count (f, false) =
        (Item.bases below).count (f, false) + 1 := by
      simp [hst, hbare]
    have hact := hc.running f (by omega)
    refine ⟨⟨by simpa using hbelow, ?_, fun g => ?_, fun g hg => ?_⟩, ?_, size_modify _ _⟩
    · intro g s hg
      simp only [size_modify]
      simp only [Control.modify, Array.getElem?_modify] at hg
      split at hg
      · obtain ⟨s', -, rfl⟩ := Option.map_eq_some_iff.mp hg
        subst_vars
        exact ⟨habove, hbare, fun _ _ hp => by cases hp⟩
      · exact hc.saved g s hg
    · have := hc.once g
      have := hle g
      simp only
      omega
    · have hg' : f ≠ g := by
        rintro rfl
        simp only at hg
        omega
      have := hc.running g (by have := hle g; simp only at hg; omega)
      simpa [fiberD, Control.modify, Array.getElem?_modify, hg'] using this
    · have := unfinished_modify (fun s => { s with phase := .parked above }) hf
      rw [items_of_active hact] at this
      simp only [unfinished, hst, Item.marks_append, Item.marks_base, Item.marks_nil,
        Control.modify, Fiber.items] at this ⊢
      omega

theorem Good.land {below : List (Item Task)} {f : FiberId} {forced : Bool}
    (hst : c.stack = .base f forced :: below) (hc : Good home owner i b c) :
    Good home owner i b ({ c with stack := below }.land f forced) ∧
      ({ c with stack := below }.land f forced).unfinished = c.unfinished ∧
      ({ c with stack := below }.land f forced).fibers.size = c.fibers.size := by
  have hrest := hc.stack
  rw [hst] at hrest
  obtain ⟨hf, hi⟩ := hrest.fibers f (by simp)
  have hbelow : Fits home c.fibers.size owner i below :=
    ⟨fun g hg => hrest.fibers g (by simp [hg]), hrest.pins, fun hm => hrest.marks (by simpa using hm)⟩
  have hle (g : FiberId) :
      (Item.bases below).count (g, false) ≤ (Item.bases c.stack).count (g, false) := by
    rw [hst]
    exact List.count_le_count_cons
  have hpop : Good home owner i b { c with stack := below } :=
    ⟨hbelow, hc.saved, fun g => by have := hc.once g; have := hle g; simp only; omega,
      fun g hg => hc.running g (by have := hle g; simp only at hg; omega)⟩
  have hmarks : ({ c with stack := below } : Control Task).unfinished = c.unfinished := by
    simp [unfinished, hst]
  have hsize : ({ c with stack := below }.land f forced).fibers.size = c.fibers.size := by
    simp [Control.land, Control.modify]
  cases forced with
  | true =>
    refine ⟨hpop.adjust fun s => rfl, ?_, hsize⟩
    rw [← hmarks]
    exact unfinished_adjust _ f fun s => rfl
  | false =>
    have hone := hc.once f
    have hcount : (Item.bases c.stack).count (f, false) =
        (Item.bases below).count (f, false) + 1 := by simp [hst]
    have hact := hc.running f (by omega)
    refine ⟨hpop.modify (fun s _ => taken_saved _ rfl) fun s hs hpos => ?_, ?_, hsize⟩
    · simp only at hpos
      omega
    · rw [← hmarks]
      have := unfinished_modify (c := { c with stack := below })
        (fun s => { s.settle with phase := .ended }) hf
      have hit : (({ c with stack := below } : Control Task).fiberD f).items = [] :=
        items_of_active hact
      rw [hit] at this
      simpa [Control.land, Fiber.items] using this

theorem Good.push (hc : Good home owner i b c) {ts : List Task}
    (hf : Fits home c.fibers.size owner i (ts.map .task)) : Good home owner i b (c.push ts) := by
  have hb : Item.bases (ts.map .task) = [] := by
    simp [Item.bases, List.filterMap_map]
  refine ⟨Fits.append_iff.mpr ⟨hf, hc.stack⟩, hc.saved, fun g => ?_, fun g hg => ?_⟩
  · simpa [Control.push, hb] using hc.once g
  · exact hc.running g (by simpa [Control.push, hb] using hg)

private theorem Good.take (hc : Good home owner i b c) {f : FiberId}
    (hr : (c.fiberD f).isActive = false) :
    Good home owner i b (c.modify f fun s => { s with phase := .taken }) := by
  have := hc.count_eq_zero hr
  exact hc.modify (fun s hs => taken_saved _ rfl) fun s hs hpos => by omega

theorem Good.destroy (hc : Good home owner i b c) {f : FiberId} (hf : f < c.fibers.size)
    (hi : home f = i) (panicking : Bool) :
    Good home owner i b (c.destroy f panicking).1 ∧
      (c.destroy f panicking).1.unfinished = c.unfinished ∧
      (c.destroy f panicking).1.fibers.size = c.fibers.size := by
  have hs := hc.saved f _ (getElem?_fibers hf)
  have hfit := hs.fits
  rw [hi] at hfit
  have hum := unfinished_modify (fun s => { s with phase := .taken }) hf
  have hu : ({ c.fiberD f with phase := .taken } : Fiber Task).items = [] := rfl
  rw [hu, Item.marks_nil] at hum
  unfold Control.destroy
  split
  · rename_i entry discard hp
    have hit : (c.fiberD f).items = entry.map .task ++ discard.map .task := by
      simp [Fiber.items, hp]
    have hm := hs.unentered _ _ hp
    rw [hit] at hfit
    rw [hit, Item.marks_append] at hm
    rw [hit, Item.marks_append] at hum
    have hg := hc.take (by simp [Fiber.isActive, hp] : (c.fiberD f).isActive = false)
    refine ⟨hg.push ?_, ?_, size_modify _ _⟩
    · rw [size_modify]
      exact (Fits.append_iff.mp hfit).2
    · simp only [unfinished, Control.push, Item.marks_append] at hum ⊢
      omega
  · rename_i stack hp
    have hit : (c.fiberD f).items = stack := by simp [Fiber.items, hp]
    have hr : (c.fiberD f).isActive = false := by simp [Fiber.isActive, hp]
    rw [hit] at hfit hum
    split
    · have hg := hc.take hr
      refine ⟨⟨hg.stack, hg.saved, hg.once, hg.running⟩, ?_, size_modify _ _⟩
      simp only [unfinished, Control.modify, tally_cons] at hum ⊢
      omega
    · refine ⟨hc.mount hf hi hfit (hit ▸ hs.bare) hu (fun hn => by cases hn) hr, ?_, size_modify _ _⟩
      exact unfinished_mount hf hu (by rw [hit])
  · exact ⟨hc, rfl, rfl⟩
  · rename_i hp
    have hit : (c.fiberD f).items = [] := by simp [Fiber.items, hp]
    rw [hit, Item.marks_nil] at hum
    exact ⟨hc.take (by simp [Fiber.isActive, hp]), hum, size_modify _ _⟩
  · rename_i hp
    have hit : (c.fiberD f).items = [] := by simp [Fiber.items, hp]
    rw [hit, Item.marks_nil] at hum
    exact ⟨hc.take (by simp [Fiber.isActive, hp]), hum, size_modify _ _⟩

theorem Good.abandon (hc : Good home owner i b c) {f : FiberId} (hf : f < c.fibers.size) :
    Good home owner i b (c.abandon f) ∧ (c.abandon f).unfinished = c.unfinished ∧
      (c.abandon f).fibers.size = c.fibers.size := by
  have hs : Good home owner i b (c.modify f Fiber.settle) := hc.adjust fun _ => rfl
  have hus : (c.modify f Fiber.settle).unfinished = c.unfinished :=
    unfinished_adjust c f fun _ => rfl
  have hd : (c.modify f Fiber.settle).fiberD f = (c.fiberD f).settle := by
    rw [fiberD_modify, if_pos ⟨rfl, hf⟩]
  have hum := unfinished_modify (c := c.modify f Fiber.settle)
    (fun s => { s with phase := .taken }) (by rwa [size_modify])
  rw [hd, hus] at hum
  have hit : (c.fiberD f).settle.items = (c.fiberD f).items := rfl
  have hu : ({ (c.fiberD f).settle with phase := .taken } : Fiber Task).items = [] := rfl
  rw [hit, hu, Item.marks_nil] at hum
  have hact (hr : (c.fiberD f).isActive = false) :
      ((c.modify f Fiber.settle).fiberD f).isActive = false := by
    rw [hd]
    exact hr
  unfold Control.abandon
  split
  · rename_i entry discard hp
    have hm := (hc.saved f _ (getElem?_fibers hf)).unentered _ _ hp
    have hl : Item.marks (c.fiberD f).items =
        Item.marks (entry.map .task) + Item.marks (discard.map .task) := by
      simp [Fiber.items, hp]
    have hg := hs.take (hact (by simp [Fiber.isActive, hp]))
    refine ⟨⟨hg.stack, hg.saved, hg.once, hg.running⟩, ?_, by simp⟩
    simp only [unfinished, Control.modify, tally_cons] at hum ⊢
    omega
  · rename_i stack hp
    have hl : Item.marks (c.fiberD f).items = Item.marks stack := by simp [Fiber.items, hp]
    have hg := hs.take (hact (by simp [Fiber.isActive, hp]))
    refine ⟨⟨hg.stack, hg.saved, hg.once, hg.running⟩, ?_, by simp⟩
    simp only [unfinished, Control.modify, tally_cons] at hum ⊢
    omega
  · exact ⟨hs, hus, size_modify _ _⟩
  · rename_i hp
    have hl : Item.marks (c.fiberD f).items = 0 := by simp [Fiber.items, hp]
    exact ⟨hs.take (hact (by simp [Fiber.isActive, hp])), by simp only; omega, by simp⟩
  · rename_i hp
    have hl : Item.marks (c.fiberD f).items = 0 := by simp [Fiber.items, hp]
    exact ⟨hs.take (hact (by simp [Fiber.isActive, hp])), by simp only; omega, by simp⟩

theorem Good.unshare (hc : Good home owner i b c) {f : FiberId} (hf : f < c.fibers.size)
    (hi : home f = i) (panicking : Bool) :
    Good home owner i b (c.unshare f panicking).1 ∧
      (c.unshare f panicking).1.unfinished = c.unfinished ∧
      (c.unshare f panicking).1.fibers.size = c.fibers.size := by
  have h₁ : Good home owner i b (c.modify f fun s => { s with handles := s.handles - 1 }) :=
    hc.adjust fun _ => rfl
  have u₁ : (c.modify f fun s => { s with handles := s.handles - 1 }).unfinished = c.unfinished :=
    unfinished_adjust c f fun _ => rfl
  unfold Control.unshare
  simp only
  split
  · have h₂ := h₁.adjust (f := f) (u := fun s => { s with cancelling := true }) fun _ => rfl
    obtain ⟨h₃, u₃, s₃⟩ := h₂.destroy (by simpa using hf) hi panicking
    refine ⟨h₃, ?_, by simp [s₃]⟩
    rw [u₃, ← u₁]
    exact unfinished_adjust _ f fun _ => rfl
  · exact ⟨h₁, u₁, size_modify _ _⟩

theorem Good.create (hc : Good home owner i b c) {home' : FiberId → ThreadId}
    (hh : ∀ f < c.fibers.size, home' f = home f) {e d : List Task}
    (hfit : Fits home' (c.fibers.size + 1) owner (home' c.fibers.size)
      ((e ++ d).map .task))
    (hm : Item.marks ((e ++ d).map .task) = 0)
    (hb : b c.fibers.size + (Item.bases c.stack).count (c.fibers.size, false) = 0) :
    Good home' owner i b (c.create e d).2 ∧
      (c.create e d).2.unfinished = c.unfinished := by
  refine ⟨⟨?_, fun f s hs => ?_, hc.once, fun f hf => ?_⟩, ?_⟩
  · simp only [Control.create, Array.size_push]
    exact hc.stack.rehome hh (Nat.le_succ _)
  · simp only [Control.create, Array.getElem?_push, Array.size_push] at hs ⊢
    split at hs
    · obtain rfl := Option.some.inj hs
      subst_vars
      refine ⟨hfit, ?_, fun _ _ _ => hm⟩
      simp [Fiber.items, Item.bases, List.filterMap_map]
    · have hlt : f < c.fibers.size := by
        by_contra hc
        simp [hc] at hs
      obtain ⟨h₁, h₂, h₃⟩ := hc.saved f s hs
      rw [hh f hlt]
      exact ⟨h₁.rehome hh (Nat.le_succ _), h₂, h₃⟩
  · have hne : f ≠ c.fibers.size := by
      rintro rfl
      simp only [Control.create] at hf
      omega
    have := hc.running f hf
    simpa [fiberD, Control.create, Array.getElem?_push, hne] using this
  · simp only [unfinished, Control.create, total_push]
    have : Item.marks ({ phase := .fresh e d } : Fiber Task).items = 0 := hm
    omega

section

variable {f : FiberId} {panicking : Bool}

theorem stack_abandon : (c.abandon f).stack = c.stack := by
  unfold abandon
  dsimp only
  split <;> rfl

theorem phase_modify (c : Control Task) (f g : FiberId) (u : Fiber Task → Fiber Task)
    (hu : ∀ s, (u s).phase = s.phase) :
    ((c.modify f u).fiberD g).phase = (c.fiberD g).phase := by
  rw [fiberD_modify]
  split
  · exact hu _
  · rfl

theorem abandon_rested (hr : (c.fiberD f).isActive = false) :
    (c.abandon f).stack = c.stack ∧ (c.abandon f).fibers = c.fibers.modify f fun s =>
      { s with armed := false, finished := true, phase := .taken } := by
  have htwice : (c.fibers.modify f Fiber.settle).modify f (fun s => { s with phase := .taken }) =
      c.fibers.modify f fun s => { s with armed := false, finished := true, phase := .taken } := by
    refine Array.ext_getElem? fun i => ?_
    simp only [Array.getElem?_modify]
    split <;> simp [Option.map_map, Function.comp_def, Fiber.settle]
  unfold abandon
  cases hp : (c.fiberD f).phase with
  | active => simp [Fiber.isActive, hp] at hr
  | _ => exact ⟨rfl, htwice⟩

private theorem stack_unshare_of
    (hf : (c.fiberD f).phase = .active ∨ (c.fiberD f).phase = .taken) :
    (c.unshare f panicking).1.stack = c.stack := by
  have hd (k : Control Task) (hk : (k.fiberD f).phase = (c.fiberD f).phase) :
      (k.destroy f panicking).1.stack = k.stack := by
    unfold destroy
    rw [hk]
    rcases hf with hf | hf
    · rw [hf]
    · rw [hf]
      rfl
  have h₁ := phase_modify c f f (fun s => { s with handles := s.handles - 1 }) fun _ => rfl
  have h₂ := phase_modify (c.modify f fun s => { s with handles := s.handles - 1 }) f f
    (fun s => { s with cancelling := true }) fun _ => rfl
  unfold unshare
  dsimp only
  split
  · exact hd _ (h₂.trans h₁)
  · rfl

theorem stack_unshare_abandon : ((c.abandon f).unshare f panicking).1.stack = c.stack := by
  refine (stack_unshare_of ?_).trans stack_abandon
  cases hp : (c.fiberD f).phase with
  | active =>
    refine .inl ?_
    unfold abandon
    rw [hp]
    exact (phase_modify c f f Fiber.settle fun _ => rfl).trans hp
  | _ =>
    refine .inr ?_
    obtain ⟨-, hfib⟩ := abandon_rested (c := c) (f := f) (by unfold Fiber.isActive; rw [hp])
    rw [fiberD, hfib, Array.getElem?_modify, if_pos rfl]
    cases c.fibers[f]? <;> rfl

end

end Control

end Switchyard
