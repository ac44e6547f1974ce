import Switchyard.Proofs.Lock.Control
import Switchyard.Proofs.Signals.Robust

/-!
# Fibers and signals

Entering, leaving, unwinding and giving up fibers keeps control stacks in order.
-/

namespace Switchyard

/-- The control stack and all saved stacks are in order. -/
structure Control.InOrder (k : Control Task) : Prop where
  stack : ∃ c, Context.of k.stack = some c
  saved : ∀ (f : FiberId) s, k.fibers[f]? = some s → s.phase.InOrder

namespace Control.InOrder

variable {k : Control Task} {f : FiberId}

theorem modify (h : k.InOrder) {g : Fiber Task → Fiber Task}
    (hg : ∀ s, s.phase.InOrder → (g s).phase.InOrder) : (k.modify f g).InOrder where
  stack := h.stack
  saved i s hs := by
    simp only [Control.modify, Array.getElem?_modify] at hs
    split at hs
    · obtain ⟨s', hs', rfl⟩ := Option.map_eq_some_iff.mp hs
      exact hg s' (h.saved i s' hs')
    · exact h.saved i s hs

theorem withStack (h : k.InOrder) {s : List (Item Task)} {l : List (List (Item Task))}
    (hs : ∃ c, Context.of s = some c) : ({ k with stack := s, lost := l } : Control Task).InOrder :=
  ⟨hs, h.saved⟩

theorem phase (h : k.InOrder) (f : FiberId) : (k.fiberD f).phase.InOrder := by
  unfold Control.fiberD
  cases hs : k.fibers[f]? with
  | none => trivial
  | some s => exact h.saved f s hs

private theorem mount {s below : List (Item Task)} {f : FiberId} {forced : Bool}
    (hs : ∃ c, Context.base.upon s = some c) (hb : ∃ c, Context.of below = some c) :
    ∃ c, Context.of (s ++ .base f forced :: below) = some c := by
  obtain ⟨c, hs⟩ := hs
  obtain ⟨c', hb⟩ := hb
  refine ⟨c, ?_⟩
  rw [Context.of_append]
  have hi : Context.of (.base f forced :: below) = some .base := by
    simp only [Context.of, Context.upon_cons] at hb ⊢
    rw [hb]
    rfl
  rw [hi]
  exact hs

theorem resume (h : k.InOrder) {k' : Control Task} (hr : k.resume f = some k') : k'.InOrder := by
  have hp := h.phase f
  have ha (g : Fiber Task → Fiber Task) (hg : ∀ s, (g s).phase = .active) :
      (k.modify f g).InOrder := h.modify fun s _ => by rw [hg]; trivial
  unfold Control.resume at hr
  split at hr
  · cases hr
  · rename_i entry discard he
    rw [he] at hp
    obtain rfl := Option.some.inj hr
    exact (ha (fun s => { s with phase := .active, armed := true, started := true })
      fun _ => rfl).withStack (mount hp.1 h.stack)
  · rename_i s he
    rw [he] at hp
    obtain rfl := Option.some.inj hr
    exact (ha (fun s => { s with phase := .active }) fun _ => rfl).withStack (mount hp h.stack)
  · obtain rfl := Option.some.inj hr
    exact h
  · obtain rfl := Option.some.inj hr
    exact h

theorem suspend (h : k.InOrder) {k' : Control Task} (hr : k.suspend = some k') : k'.InOrder := by
  unfold Control.suspend at hr
  obtain ⟨⟨above, f, forced, below⟩, hs, hk⟩ := Option.map_eq_some_iff.mp hr
  obtain ⟨c, hc⟩ := h.stack
  rw [(Control.split_eq hs).1, Context.of_append] at hc
  obtain ⟨c₁, hi, ha⟩ := Option.bind_eq_some_iff.mp hc
  obtain ⟨c₂, hb, hi⟩ := Context.of_cons hi
  obtain rfl : Context.base = c₁ := by simpa [Context.item] using hi
  simp only at hk
  split at hk
  · subst hk
    exact h.withStack ⟨c₂, hb⟩
  · subst hk
    have hm : (k.modify f fun s => { s with phase := .parked above }).InOrder :=
      h.modify fun _ _ => ⟨c, ha⟩
    exact hm.withStack ⟨c₂, hb⟩

theorem land (h : k.InOrder) (f : FiberId) (forced : Bool) : (k.land f forced).InOrder := by
  refine h.modify fun s hs => ?_
  split
  · exact hs
  · trivial

theorem destroy (h : k.InOrder) (f : FiberId) (panicking : Bool) :
    (k.destroy f panicking).1.InOrder := by
  have hp := h.phase f
  have ht : (k.modify f fun s => { s with phase := .taken }).InOrder := h.modify fun _ _ => trivial
  unfold Control.destroy
  simp only
  split
  · rename_i entry discard he
    rw [he] at hp
    obtain ⟨c, hc⟩ := h.stack
    refine ht.withStack ⟨c, ?_⟩
    rw [Context.of_append]
    have hm : Context.of (k.modify f fun s => { s with phase := .taken }).stack = some c := hc
    rw [hm]
    exact Context.upon_neutral hp.2
  · rename_i s he
    rw [he] at hp
    split
    · exact ht.withStack h.stack
    · exact ht.withStack (mount hp h.stack)
  · exact h
  · exact ht
  · exact ht

theorem unshare (h : k.InOrder) (f : FiberId) (panicking : Bool) :
    (k.unshare f panicking).1.InOrder := by
  have hm : (k.modify f fun s => { s with handles := s.handles - 1 }).InOrder :=
    h.modify fun _ hs => hs
  have hc : ((k.modify f fun s => { s with handles := s.handles - 1 }).modify f
      fun s => { s with cancelling := true }).InOrder := hm.modify fun _ hs => hs
  unfold Control.unshare
  simp only
  split
  · exact hc.destroy f panicking
  · exact hm

theorem abandon (h : k.InOrder) (f : FiberId) : (k.abandon f).InOrder := by
  have hm : (k.modify f Fiber.settle).InOrder := h.modify fun s hs => hs
  have ht : ((k.modify f Fiber.settle).modify f fun s => { s with phase := .taken }).InOrder :=
    hm.modify fun _ _ => trivial
  unfold Control.abandon
  simp only
  split
  · exact ht.withStack h.stack
  · exact ht.withStack h.stack
  · exact hm
  · exact ht
  · exact ht

theorem share (h : k.InOrder) (f : FiberId) : (k.share f).InOrder := h.modify fun _ hs => hs

theorem create (h : k.InOrder) {entry discard : List Task}
    (he : ∃ c, Context.base.upon (entry.map .task) = some c)
    (hd : discard.all Task.isNeutral = true) : (k.create entry discard).2.InOrder where
  stack := h.stack
  saved i s hs := by
    simp only [Control.create, Array.getElem?_push] at hs
    split at hs
    · obtain rfl := Option.some.inj hs
      exact ⟨he, hd⟩
    · exact h.saved i s hs

end Control.InOrder

namespace World

variable {w w' : World} {c : Context}

theorem Stands.control (h : w.Stands c) : w.control.InOrder := ⟨⟨c, h.context⟩, h.saved⟩

theorem Stands.setControl (h : w.Stands c) {k : Control Task} (hk : k.InOrder) :
    ∃ c, (w.setControl k).Stands c := by
  obtain ⟨c', hc⟩ := hk.stack
  refine ⟨c', ?_⟩
  have hs : (w.setStack k.stack).Stands c' := h.setStack hc
  exact ⟨hs.seated, hs.context, hs.everywhere, hk.saved⟩

theorem Stands.setSaved (h : w.Stands c) {k : Control Task} (hk : k.InOrder)
    (hs : k.stack = w.thread.stack) : (w.setControl k).Stands c := by
  have h₁ : (w.setStack k.stack).Stands c := h.setStack (by rw [hs]; exact h.context)
  exact ⟨h₁.seated, h₁.context, h₁.everywhere, hk.saved⟩

theorem Stands.takeControl (h : w.Stands c) {x : Control Task × Bool} (hx : x.1.InOrder) :
    ∃ c, (w.takeControl x).Stands c := by
  obtain ⟨c', hc⟩ := h.setControl hx
  unfold World.takeControl
  simp only
  split
  · exact ⟨c', tolerant.fail hc _⟩
  · exact ⟨c', hc⟩

theorem Stands.unshare (h : w.Stands c) (f : FiberId) : ∃ c, (w.unshare f).Stands c :=
  h.takeControl (h.control.unshare f _)

theorem Stands.modifyFiber (h : w.Stands c) (f : FiberId) {g : Fiber Task → Fiber Task}
    (hg : ∀ s, s.phase.InOrder → (g s).phase.InOrder) : (w.modifyFiber f g).Stands c :=
  ⟨h.seated, h.context, h.everywhere, (h.control.modify hg).saved⟩

theorem Stands.unwind (h : w.Stands c) (f : FiberId) : ∃ c, (w.unwind f).Stands c := by
  unfold World.unwind
  have h₁ : (w.modifyFiber f fun s => { s with cancelling := true }).Stands c :=
    h.modifyFiber f fun s hs => hs
  simp only
  split
  · exact ⟨c, h₁.level (.of_eq rfl rfl rfl)⟩
  · have h₂ := h₁.neutral (show [Task.settle f].all Task.isNeutral = true from rfl)
    exact h₂.takeControl (h₂.control.destroy f _)

theorem Stands.abandonStack (h : w.Stands c) (r : Ref) : ∃ c, (w.abandonStack r).2.Stands c := by
  unfold World.abandonStack
  have h₁ : (w.modifyGreenlet r fun g => { g with state := .dead, fiber := none }).Stands c :=
    h.level (.of_eq rfl rfl rfl)
  simp only
  split
  · exact ⟨c, h₁⟩
  · split
    · exact ⟨c, h₁⟩
    · rename_i f _
      exact h₁.setControl ((h₁.control.abandon f).unshare f _)

theorem Stands.robust : Robust fun w => ∃ c, w.Stands c where
  level := by
    rintro w w' ⟨c, h⟩ hl
    exact ⟨c, h.level hl⟩
  neutral := by
    rintro w ⟨c, h⟩ ts ht
    exact ⟨c, h.neutral ht⟩
  modifyFrame := by
    rintro w ⟨c, h⟩ g
    exact ⟨c, h.modifyFrame g⟩
  loose := by
    rintro w ⟨c, h⟩ ts ht
    obtain ⟨c', hc⟩ := Context.upon_loose ht
    exact ⟨c', h.push hc⟩
  cleanup := by
    rintro w ⟨c, h⟩ steps name
    exact ⟨.frame, h.push rfl⟩
  unshare := by
    rintro w ⟨c, h⟩ f
    exact h.unshare f
  unwind := by
    rintro w ⟨c, h⟩ f
    exact h.unwind f
  abandonStack := by
    rintro w ⟨c, h⟩ r
    exact h.abandonStack r

end World

end Switchyard
