import Switchyard.Proofs.Lock.Control
import Switchyard.Proofs.Ownership.Effect

/-!
# The books of fibers

A saved stack owns what its tasks own, and a fiber counts its handles. When a stack is put on the
control stack of a thread or taken from it, its tokens go with it.
-/

namespace Switchyard

open World

namespace Control

variable {k k' : Control Task} {f : FiberId}

/-- What the control stack and the saved stacks claim. -/
def claims (k : Control Task) (x : Token) : Nat :=
  (Item.tokensOf k.stack).count x + total (fun s : Fiber Task => s.tokens.count x) k.fibers

def backing (k : Control Task) (x : Token) : Nat :=
  match x with
  | .fiber f => (k.fibers[f]?.map Fiber.handles).getD 0
  | _ => 0

theorem claims_modify {s : Fiber Task} (hs : k.fibers[f]? = some s) (g : Fiber Task → Fiber Task)
    (x : Token) :
    (k.modify f g).claims x + s.tokens.count x = k.claims x + (g s).tokens.count x := by
  have := total_modify (fun s : Fiber Task => s.tokens.count x) hs g
  simp only [claims, modify]
  omega

theorem modify_eq_self (hs : k.fibers[f]? = none) (g : Fiber Task → Fiber Task) :
    k.modify f g = k := by
  simp only [modify, Switchyard.modify_eq_self hs]

theorem claims_modify_le {g : Fiber Task → Fiber Task}
    (hg : ∀ s, k.fibers[f]? = some s → ∀ x, (g s).tokens.count x ≤ s.tokens.count x) (x : Token) :
    (k.modify f g).claims x ≤ k.claims x := by
  cases hs : k.fibers[f]? with
  | none => exact Nat.le_of_eq (by rw [modify_eq_self hs])
  | some s =>
    have := claims_modify hs g x
    have := hg s hs x
    omega

theorem backing_modify {g : Fiber Task → Fiber Task} (hg : ∀ s, (g s).handles = s.handles)
    (x : Token) : (k.modify f g).backing x = k.backing x := by
  cases x with
  | fiber q =>
    simp only [backing, modify, Array.getElem?_modify]
    split
    · cases k.fibers[q]? <;> simp [hg]
    · rfl
  | _ => rfl

private theorem claims_mount {g : Fiber Task → Fiber Task} {s below : List (Item Task)}
    {l : List (List (Item Task))} (hg : ∀ s, (g s).tokens = [])
    (hs : ∀ x, (Item.tokensOf s).count x ≤ (k.fiberD f).tokens.count x +
      ((Item.tokensOf k.stack).count x - (Item.tokensOf below).count x))
    (hb : ∀ x, (Item.tokensOf below).count x ≤ (Item.tokensOf k.stack).count x) (x : Token) :
    ({ k.modify f g with stack := s ++ below, lost := l } : Control Task).claims x ≤
      k.claims x := by
  have h₁ := hs x
  have h₂ := hb x
  simp only [claims, Item.tokensOf_append, List.count_append]
  cases hf : k.fibers[f]? with
  | none =>
    have h₀ : k.fiberD f = { phase := .taken } := by simp [fiberD, hf]
    have h₀ : (k.fiberD f).tokens = [] := by rw [h₀]; rfl
    rw [h₀] at h₁
    rw [modify_eq_self hf]
    simp only [List.count_nil] at h₁
    omega
  | some s' =>
    have hd : k.fiberD f = s' := by simp [fiberD, hf]
    have hm := claims_modify hf g x
    simp only [claims, hg, List.count_nil] at hm
    have ht : (k.modify f g).stack = k.stack := rfl
    rw [ht] at hm
    rw [hd] at h₁
    omega

theorem claims_resume (hr : k.resume f = some k') (x : Token) : k'.claims x ≤ k.claims x := by
  unfold resume at hr
  split at hr
  · cases hr
  · rename_i entry discard he
    obtain rfl := Option.some.inj hr
    refine claims_mount (s := entry.map .task) (fun _ => rfl) (fun x => ?_) (fun x => ?_) x
    · simp [Fiber.tokens, he, Fiber.Phase.tokens, Item.tokens]
    · simp [Item.tokens]
  · rename_i s he
    obtain rfl := Option.some.inj hr
    refine claims_mount (s := s) (fun _ => rfl) (fun x => ?_) (fun x => ?_) x
    · simp [Fiber.tokens, he, Fiber.Phase.tokens, Item.tokens]
    · simp [Item.tokens]
  · obtain rfl := Option.some.inj hr
    exact Nat.le_refl _
  · obtain rfl := Option.some.inj hr
    exact Nat.le_refl _

theorem backing_resume (hr : k.resume f = some k') (x : Token) : k'.backing x = k.backing x := by
  unfold resume at hr
  split at hr
  · cases hr
  · obtain rfl := Option.some.inj hr
    refine backing_modify (k := k) (f := f) ?_ x
    exact fun _ => rfl
  · obtain rfl := Option.some.inj hr
    refine backing_modify (k := k) (f := f) ?_ x
    exact fun _ => rfl
  · obtain rfl := Option.some.inj hr
    rfl
  · obtain rfl := Option.some.inj hr
    rfl

theorem claims_suspend (hr : k.suspend = some k') (x : Token) : k'.claims x ≤ k.claims x := by
  unfold suspend at hr
  obtain ⟨⟨above, f, forced, below⟩, hs, hk⟩ := Option.map_eq_some_iff.mp hr
  have ht : (Item.tokensOf k.stack).count x =
      (Item.tokensOf above).count x + (Item.tokensOf below).count x := by
    rw [(split_eq hs).1]
    simp [Item.tokens]
  simp only at hk
  split at hk
  · subst hk
    simp only [claims]
    omega
  · subst hk
    cases hf : k.fibers[f]? with
    | none =>
      rw [modify_eq_self hf]
      simp only [claims]
      omega
    | some s =>
      have := claims_modify hf (fun s => { s with phase := .parked above }) x
      have ha : ({ s with phase := .parked above } : Fiber Task).tokens = Item.tokensOf above := rfl
      rw [ha] at this
      have hk : (k.modify f fun s => { s with phase := .parked above }).stack = k.stack := rfl
      simp only [claims, hk] at this ⊢
      omega

theorem backing_suspend (hr : k.suspend = some k') (x : Token) : k'.backing x = k.backing x := by
  unfold suspend at hr
  obtain ⟨⟨above, f, forced, below⟩, hs, hk⟩ := Option.map_eq_some_iff.mp hr
  simp only at hk
  split at hk
  · subst hk
    rfl
  · subst hk
    refine backing_modify (k := k) (f := f) ?_ x
    exact fun _ => rfl

theorem claims_land (forced : Bool) (x : Token) : (k.land f forced).claims x ≤ k.claims x := by
  refine claims_modify_le (fun s _ x => ?_) x
  split
  · exact Nat.le_refl _
  · simp [Fiber.tokens, Fiber.Phase.tokens]

theorem backing_land (forced : Bool) (x : Token) : (k.land f forced).backing x = k.backing x :=
  backing_modify (fun s => by split <;> rfl) x

/-- What is dropped of an entry that never ran is no more than what the entry owns. -/
def Honest (k : Control Task) (f : FiberId) : Prop :=
  ∀ entry discard, (k.fiberD f).phase = .fresh entry discard →
    ∀ x, (Task.tokensOf discard).count x ≤ (Task.tokensOf entry).count x

theorem claims_destroy (hd : k.Honest f) (panicking : Bool) (x : Token) :
    (k.destroy f panicking).1.claims x ≤ k.claims x := by
  have ht (x : Token) : (k.modify f fun s => { s with phase := .taken }).claims x ≤ k.claims x :=
    claims_modify_le (fun s _ x => by simp [Fiber.tokens, Fiber.Phase.tokens]) x
  unfold destroy
  simp only
  split
  · rename_i entry discard he
    refine claims_mount (s := discard.map .task) (fun _ => by rfl) (fun x => ?_) (fun x => ?_) x
    · have := hd entry discard he x
      simp only [Fiber.tokens, he, Fiber.Phase.tokens, Item.tokensOf_map_task]
      omega
    · exact Nat.le_refl _
  · rename_i s he
    split
    · exact ht x
    · refine claims_mount (s := s) (fun _ => by rfl) (fun x => ?_) (fun x => ?_) x
      · simp [Fiber.tokens, he, Fiber.Phase.tokens, Item.tokens]
      · simp [Item.tokens]
  · exact Nat.le_refl _
  · exact ht x
  · exact ht x

theorem backing_destroy (panicking : Bool) (x : Token) :
    (k.destroy f panicking).1.backing x = k.backing x := by
  have ht : (k.modify f fun s => { s with phase := .taken }).backing x = k.backing x :=
    backing_modify (fun _ => by rfl) x
  unfold destroy
  simp only
  split
  · exact ht
  · split <;> exact ht
  · rfl
  · exact ht
  · exact ht

theorem claims_abandon (x : Token) : (k.abandon f).claims x ≤ k.claims x := by
  have hm : (k.modify f Fiber.settle).claims x ≤ k.claims x :=
    claims_modify_le (fun _ _ _ => by exact Nat.le_refl _) x
  have ht : ((k.modify f Fiber.settle).modify f fun s => { s with phase := .taken }).claims x ≤
      (k.modify f Fiber.settle).claims x :=
    claims_modify_le (fun s _ x => by simp [Fiber.tokens, Fiber.Phase.tokens]) x
  unfold abandon
  simp only
  split
  · exact Nat.le_trans ht hm
  · exact Nat.le_trans ht hm
  · exact hm
  · exact Nat.le_trans ht hm
  · exact Nat.le_trans ht hm

theorem backing_abandon (x : Token) : (k.abandon f).backing x = k.backing x := by
  have hm : (k.modify f Fiber.settle).backing x = k.backing x := backing_modify (fun _ => by rfl) x
  have ht : ((k.modify f Fiber.settle).modify f fun s => { s with phase := .taken }).backing x =
      (k.modify f Fiber.settle).backing x := backing_modify (fun _ => by rfl) x
  unfold abandon
  simp only
  split
  · exact ht.trans hm
  · exact ht.trans hm
  · exact hm
  · exact ht.trans hm
  · exact ht.trans hm

theorem claims_handles {g : Fiber Task → Fiber Task} (hg : ∀ s, (g s).phase = s.phase) (x : Token) :
    (k.modify f g).claims x ≤ k.claims x :=
  claims_modify_le (fun s _ x => by simp [Fiber.tokens, hg]) x

theorem backing_handles {s : Fiber Task} (hs : k.fibers[f]? = some s) (g : Fiber Task → Fiber Task)
    (x : Token) :
    (k.modify f g).backing x = if x = .fiber f then (g s).handles else k.backing x := by
  cases x with
  | fiber q =>
    simp only [backing, modify, Array.getElem?_modify]
    by_cases hq : f = q
    · subst hq
      simp [hs]
    · simp [hq, Ne.symm hq]
  | _ => rfl

theorem claims_unshare (hd : k.Honest f) (panicking : Bool) (x : Token) :
    (k.unshare f panicking).1.claims x ≤ k.claims x := by
  have hm : (k.modify f fun s => { s with handles := s.handles - 1 }).claims x ≤ k.claims x :=
    claims_handles (fun _ => by rfl) x
  have hc : ((k.modify f fun s => { s with handles := s.handles - 1 }).modify f
      fun s => { s with cancelling := true }).claims x ≤ k.claims x :=
    Nat.le_trans (claims_handles (fun _ => by rfl) x) hm
  unfold unshare
  simp only
  split
  · refine Nat.le_trans (claims_destroy (fun entry discard he => ?_) panicking x) hc
    refine hd entry discard ?_
    rw [fiberD_modify, fiberD_modify] at he
    by_cases hf : f < k.fibers.size
    · simpa [hf] using he
    · simpa [hf] using he
  · exact hm

theorem backing_unshare {s : Fiber Task} (hs : k.fibers[f]? = some s) (panicking : Bool)
    (x : Token) :
    (k.unshare f panicking).1.backing x =
      if x = .fiber f then s.handles - 1 else k.backing x := by
  have hm := backing_handles hs (fun s => { s with handles := s.handles - 1 }) x
  have hc : ((k.modify f fun s => { s with handles := s.handles - 1 }).modify f
      fun s => { s with cancelling := true }).backing x =
      (k.modify f fun s => { s with handles := s.handles - 1 }).backing x :=
    backing_modify (fun _ => by rfl) x
  unfold unshare
  simp only
  split
  · exact ((backing_destroy panicking x).trans hc).trans hm
  · exact hm

theorem claims_create (k : Control Task) (entry discard : List Task) (x : Token) :
    (k.create entry discard).2.claims x = k.claims x + (Task.tokensOf entry).count x := by
  simp only [claims, create, total_push, Fiber.tokens, Fiber.Phase.tokens]
  omega

theorem backing_create (k : Control Task) (entry discard : List Task) (x : Token) :
    (k.create entry discard).2.backing x =
      if x = .fiber k.fibers.size then 1 else k.backing x := by
  cases x with
  | fiber q =>
    simp only [backing, create, Array.getElem?_push]
    by_cases hq : q = k.fibers.size
    · simp [hq]
    · simp [hq]
  | _ => rfl

-- What is on a lost stack is owned by it for good. No reference goes unaccounted for.
/-- What the lost stacks own as well. -/
def owed (k : Control Task) (x : Token) : Nat :=
  k.claims x + (k.lost.flatMap Item.tokensOf).count x

theorem total_modify_fibers (g : Fiber Task → Fiber Task) (x : Token) :
    total (fun s : Fiber Task => s.tokens.count x) (k.modify f g).fibers +
      (k.fiberD f).tokens.count x = total (fun s : Fiber Task => s.tokens.count x) k.fibers +
        if f < k.fibers.size then (g (k.fiberD f)).tokens.count x else 0 := by
  cases hf : k.fibers[f]? with
  | none =>
    have h₀ : ¬ f < k.fibers.size := by simpa using hf
    rw [modify_eq_self hf, fiberD, hf, if_neg h₀]
    rfl
  | some s =>
    have h₁ : f < k.fibers.size := (Array.getElem?_eq_some_iff.mp hf).1
    have := total_modify (fun s : Fiber Task => s.tokens.count x) hf g
    rw [fiberD, hf, if_pos h₁]
    exact this

theorem owed_modify {g : Fiber Task → Fiber Task} (hg : ∀ s, (g s).tokens = s.tokens) (x : Token) :
    (k.modify f g).owed x = k.owed x := by
  have h := total_modify_fibers (k := k) (f := f) g x
  have h₀ : ¬ f < k.fibers.size → (k.fiberD f).tokens.count x = 0 := fun hn => by
    rw [fiberD, Array.getElem?_eq_none (Nat.le_of_not_lt hn)]
    rfl
  rw [hg] at h
  simp only [owed, claims, modify] at h ⊢
  split at h
  · omega
  · have := h₀ ‹_›
    omega

theorem owed_move {g : Fiber Task → Fiber Task} {s : List (Item Task)} {l : List (List (Item Task))}
    (hg : ∀ a, (g a).tokens = []) {x : Token}
    (hs : (Item.tokensOf s).count x + (l.flatMap Item.tokensOf).count x =
      (Item.tokensOf k.stack).count x + (k.lost.flatMap Item.tokensOf).count x +
        (k.fiberD f).tokens.count x) :
    ({ k.modify f g with stack := s, lost := l } : Control Task).owed x = k.owed x := by
  have h := total_modify_fibers (k := k) (f := f) g x
  rw [hg, List.count_nil, ite_self] at h
  simp only [owed, claims]
  omega

theorem owed_resume (hr : k.resume f = some k') (x : Token) : k'.owed x = k.owed x := by
  unfold resume at hr
  split at hr
  · cases hr
  · rename_i entry discard he
    obtain rfl := Option.some.inj hr
    refine owed_move (g := fun s => { s with phase := .active, armed := true, started := true })
      (s := entry.map .task ++ .base f false :: k.stack) (fun _ => rfl) ?_
    simp [modify, Fiber.tokens, he, Fiber.Phase.tokens, Item.tokens]
    omega
  · rename_i s he
    obtain rfl := Option.some.inj hr
    refine owed_move (g := fun s => { s with phase := .active })
      (s := s ++ .base f false :: k.stack) (fun _ => rfl) ?_
    simp [modify, Fiber.tokens, he, Fiber.Phase.tokens, Item.tokens]
    omega
  · obtain rfl := Option.some.inj hr
    rfl
  · obtain rfl := Option.some.inj hr
    rfl

/-- The fiber whose stack is on top is there, and its stack is nowhere else. -/
def Mounted (k : Control Task) : Prop :=
  ∀ above f below, split k.stack = some (above, f, false, below) →
    f < k.fibers.size ∧ (k.fiberD f).tokens = []

theorem owed_suspend (hm : k.Mounted) (hr : k.suspend = some k') (x : Token) :
    k'.owed x = k.owed x := by
  unfold suspend at hr
  obtain ⟨⟨above, f, forced, below⟩, hs, hk⟩ := Option.map_eq_some_iff.mp hr
  have ht : (Item.tokensOf k.stack).count x =
      (Item.tokensOf above).count x + (Item.tokensOf below).count x := by
    rw [(split_eq hs).1]
    simp [Item.tokens]
  simp only at hk
  split at hk
  · subst hk
    simp only [owed, claims, List.flatMap_cons, List.count_append]
    omega
  · rename_i hn
    subst hk
    obtain rfl : forced = false := by simpa using hn
    obtain ⟨hlt, h₀⟩ := hm _ _ _ hs
    have h := total_modify_fibers (k := k) (f := f) (fun s => { s with phase := .parked above }) x
    rw [if_pos hlt, h₀, List.count_nil] at h
    change _ = _ + (Item.tokensOf above).count x at h
    have hl : (k.modify f fun s => { s with phase := .parked above }).lost = k.lost := rfl
    simp only [owed, claims, hl]
    omega

theorem owed_land {forced : Bool} (h₀ : forced = false → (k.fiberD f).tokens = []) (x : Token) :
    (k.land f forced).owed x = k.owed x := by
  cases forced with
  | true => exact owed_modify (g := Fiber.settle) (fun _ => rfl) x
  | false =>
    exact owed_move (g := fun s => { s.settle with phase := .ended }) (s := k.stack) (l := k.lost)
      (fun _ => rfl) (by rw [h₀ rfl, List.count_nil, Nat.add_zero])

/-- What is dropped of an entry that never ran is what the entry owns. -/
def Frank (k : Control Task) (f : FiberId) : Prop :=
  ∀ entry discard, (k.fiberD f).phase = .fresh entry discard →
    ∀ x, (Task.tokensOf discard).count x = (Task.tokensOf entry).count x

theorem Frank.of_phase (hd : k.Frank f) (hp : (k'.fiberD f).phase = (k.fiberD f).phase) :
    k'.Frank f := fun entry discard he => hd entry discard (hp ▸ he)

theorem owed_destroy (hd : k.Frank f) (panicking : Bool) (x : Token) :
    (k.destroy f panicking).1.owed x = k.owed x := by
  let g : Fiber Task → Fiber Task := fun s => { s with phase := .taken }
  have hg (a : Fiber Task) : (g a).tokens = [] := rfl
  have taken (h₀ : (k.fiberD f).tokens = []) : (k.modify f g).owed x = k.owed x :=
    owed_move (s := k.stack) (l := k.lost) hg (by simp [h₀])
  unfold destroy
  simp only
  split
  · rename_i entry discard he
    have hx := hd entry discard he x
    refine owed_move (s := discard.map .task ++ k.stack) (l := k.lost) hg ?_
    simp [Fiber.tokens, he, Fiber.Phase.tokens]
    omega
  · rename_i s he
    split
    · refine owed_move (s := k.stack) (l := s :: k.lost) hg ?_
      simp [Fiber.tokens, he, Fiber.Phase.tokens]
      omega
    · refine owed_move (s := s ++ .base f true :: k.stack) (l := k.lost) hg ?_
      simp [Fiber.tokens, he, Fiber.Phase.tokens, Item.tokens]
      omega
  · rfl
  · rename_i he
    exact taken (by rw [Fiber.tokens, he]; rfl)
  · rename_i he
    exact taken (by rw [Fiber.tokens, he]; rfl)

theorem owed_abandon (hd : k.Frank f) (x : Token) : (k.abandon f).owed x = k.owed x := by
  have hm : (k.modify f Fiber.settle).owed x = k.owed x :=
    owed_modify (g := Fiber.settle) (fun _ => rfl) x
  have hp : ((k.modify f Fiber.settle).fiberD f).tokens = (k.fiberD f).tokens :=
    congrArg Fiber.Phase.tokens (phase_modify k f f Fiber.settle fun _ => rfl)
  let g : Fiber Task → Fiber Task := fun s => { s with phase := .taken }
  have hg (a : Fiber Task) : (g a).tokens = [] := rfl
  have taken (h₀ : (k.fiberD f).tokens = []) :
      ((k.modify f Fiber.settle).modify f g).owed x = (k.modify f Fiber.settle).owed x :=
    owed_move (s := k.stack) (l := k.lost) hg (by rw [hp, h₀]; rfl)
  rw [← hm]
  unfold abandon
  simp only
  split
  · rename_i entry discard he
    have hx := hd entry discard he x
    refine owed_move (s := k.stack) (l := discard.map .task :: k.lost) hg ?_
    rw [hp]
    simp [modify, Fiber.tokens, he, Fiber.Phase.tokens]
    omega
  · rename_i s he
    refine owed_move (s := k.stack) (l := s :: k.lost) hg ?_
    rw [hp]
    simp [modify, Fiber.tokens, he, Fiber.Phase.tokens]
    omega
  · rfl
  · rename_i he
    exact taken (by rw [Fiber.tokens, he]; rfl)
  · rename_i he
    exact taken (by rw [Fiber.tokens, he]; rfl)

theorem owed_unshare (hd : k.Frank f) (panicking : Bool) (x : Token) :
    (k.unshare f panicking).1.owed x = k.owed x := by
  let g : Fiber Task → Fiber Task := fun s => { s with handles := s.handles - 1 }
  let c : Fiber Task → Fiber Task := fun s => { s with cancelling := true }
  have hm : (k.modify f g).owed x = k.owed x := owed_modify (g := g) (fun _ => rfl) x
  have hc : ((k.modify f g).modify f c).owed x = (k.modify f g).owed x :=
    owed_modify (g := c) (fun _ => rfl) x
  have hp : (((k.modify f g).modify f c).fiberD f).phase = (k.fiberD f).phase :=
    (phase_modify _ f f c fun _ => rfl).trans (phase_modify k f f g fun _ => rfl)
  unfold unshare
  simp only
  split
  · exact ((owed_destroy (hd.of_phase hp) panicking x).trans hc).trans hm
  · exact hm

theorem owed_create (k : Control Task) (entry discard : List Task) (x : Token) :
    (k.create entry discard).2.owed x = k.owed x + (Task.tokensOf entry).count x := by
  have := claims_create k entry discard x
  simp only [owed, create] at this ⊢
  omega

end Control

namespace World

variable {K : Token → Prop} {w : World} {hand hand' : List Token}

theorem demand_setControl (hw : w.Seated) (c : Control Task) (x : Token) :
    (w.setControl c).demand x + w.control.claims x = w.demand x + c.claims x := by
  have ht := total_modify (fun t : Thread => t.tokens.count x) hw.getElem?
    fun t => { t with stack := c.stack }
  simp only [Thread.tokens, List.count_append] at ht
  simp only [demand, World.setControl, World.modifyThread, Control.claims, World.control,
    tableTokens, Thread.tokens, List.count_append]
  omega

theorem Covers.setControl (hw : w.Seated) (hc : Covers K hand w) {k : Control Task}
    (h : ∀ x, K x → k.claims x + hand'.count x + w.control.backing x ≤
      w.control.claims x + hand.count x + k.backing x) :
    Covers K hand' (w.setControl k) := fun x hK => by
  have hx := hc x hK
  have h := h x hK
  have hd := demand_setControl hw k x
  have hs : (w.setControl k).supply x + w.control.backing x = w.supply x + k.backing x := by
    cases x with
    | fiber f =>
      simp only [supply, World.setControl, World.modifyThread, Control.backing, World.control]
      have (fs : Array (Fiber Task)) : (fs[f]?.map (·.supply f (.fiber f))).getD 0 =
          (fs[f]?.map Fiber.handles).getD 0 := by
        cases fs[f]? <;> simp [Fiber.supply]
      rw [this, this]
      omega
    | _ => rfl
  omega

theorem Covered.setControl (hw : w.Seated) (hc : Covered hand w) {k : Control Task}
    (h : ∀ x, k.claims x + hand'.count x + w.control.backing x ≤
      w.control.claims x + hand.count x + k.backing x) : Covered hand' (w.setControl k) :=
  Covers.setControl hw hc fun x _ => h x

end World

end Switchyard
