import Switchyard.Proofs.Effect.Run

/-!
# What stays as it is

Some facts hold for good once they hold: a greenlet keeps its thread and its hub, the dead stay
dead, a run function is used up once, a closed hub stays closed, and no stack comes back to a fiber
that is through with it.
-/

namespace Switchyard

/-- No stack will come of the fiber. -/
def Fiber.isOver (s : Fiber Task) : Bool :=
  match s.phase with
  | .ended | .taken => true
  | _ => false

def Fiber.isTaken (s : Fiber Task) : Bool :=
  match s.phase with
  | .taken => true
  | _ => false

structure Greenlet.Later (g g' : Greenlet) : Prop where
  number : g'.id = g.id
  thread : g'.thread = g.thread
  isMain : g'.isMain = g.isMain
  hub : g'.hub = g.hub
  dead : g.state = .dead → g'.state = .dead
  run : g.run = none → g'.run = none

namespace Greenlet.Later

variable {g g' g'' : Greenlet}

theorem refl (g : Greenlet) : Later g g := ⟨rfl, rfl, rfl, rfl, fun h => h, fun h => h⟩

theorem trans (h : Later g g') (h' : Later g' g'') : Later g g'' where
  number := h'.number.trans h.number
  thread := h'.thread.trans h.thread
  isMain := h'.isMain.trans h.isMain
  hub := h'.hub.trans h.hub
  dead hd := h'.dead (h.dead hd)
  run hr := h'.run (h.run hr)

end Greenlet.Later

structure Hub.Later (s s' : Hub) : Prop where
  thread : s'.thread = s.thread
  main : s'.main = s.main
  closed : s.closed = true → s'.closed = true

structure Fiber.Later (s s' : Fiber Task) : Prop where
  ended : s.isOver = true → s'.isOver = true
  taken : s.isTaken = true → s'.isTaken = true
  cancelling : s.cancelling = true → s'.cancelling = true

theorem Fiber.Later.refl (s : Fiber Task) : s.Later s := ⟨id, id, id⟩

open World

structure Later (w w' : World) : Prop where
  hubs : ∀ (h : HubId) s, w.hubs[h]? = some s → ∃ s', w'.hubs[h]? = some s' ∧ s.Later s'
  size : w.heap.size ≤ w'.heap.size
  objects : ∀ (r : Ref) o', r < w.heap.size → w'.object? r = some o' → ∃ o, w.object? r = some o ∧
    (∀ g, o.value = .greenlet g → ∃ g', o'.value = .greenlet g' ∧ g.Later g') ∧
    (o.value.greenlet? = none → o'.value.greenlet? = none)
  fibers : ∀ (f : FiberId) s, w.fibers[f]? = some s → ∃ s', w'.fibers[f]? = some s' ∧ s.Later s'

namespace Later

variable {w w' w'' : World}

theorem refl (w : World) : Later w w where
  hubs _ s hs := ⟨s, hs, rfl, rfl, id⟩
  size := Nat.le_refl _
  objects _ o _ ho := ⟨o, ho, fun g hg => ⟨g, hg, .refl g⟩, id⟩
  fibers _ s hs := ⟨s, hs, .refl s⟩

theorem trans (h : Later w w') (h' : Later w' w'') : Later w w'' where
  hubs i s hs := by
    obtain ⟨s₁, hs₁, h₁⟩ := h.hubs i s hs
    obtain ⟨s₂, hs₂, h₂⟩ := h'.hubs i s₁ hs₁
    exact ⟨s₂, hs₂, h₂.thread.trans h₁.thread, h₂.main.trans h₁.main,
      fun hc => h₂.closed (h₁.closed hc)⟩
  size := Nat.le_trans h.size h'.size
  objects r o hr ho := by
    obtain ⟨o₁, ho₁, hg₁, hn₁⟩ := h'.objects r o (Nat.lt_of_lt_of_le hr h.size) ho
    obtain ⟨o₂, ho₂, hg₂, hn₂⟩ := h.objects r o₁ hr ho₁
    refine ⟨o₂, ho₂, fun g hg => ?_, fun hn => hn₁ (hn₂ hn)⟩
    obtain ⟨g₁, hg₁', hl₁⟩ := hg₂ g hg
    obtain ⟨g₂, hg₂', hl₂⟩ := hg₁ g₁ hg₁'
    exact ⟨g₂, hg₂', hl₁.trans hl₂⟩
  fibers f s hs := by
    obtain ⟨s₁, hs₁, h₁⟩ := h.fibers f s hs
    obtain ⟨s₂, hs₂, h₂⟩ := h'.fibers f s₁ hs₁
    exact ⟨s₂, hs₂, fun ho => h₂.ended (h₁.ended ho), fun ht => h₂.taken (h₁.taken ht),
      fun hc => h₂.cancelling (h₁.cancelling hc)⟩

theorem of_eq (hh : w'.hubs = w.hubs) (hp : w'.heap = w.heap) (hf : w'.fibers = w.fibers) :
    Later w w' where
  hubs _ s hs := ⟨s, hh ▸ hs, rfl, rfl, id⟩
  size := Nat.le_of_eq (by rw [hp])
  objects _ o _ ho := ⟨o, by rwa [object?, ← hp], fun g hg => ⟨g, hg, .refl g⟩, id⟩
  fibers _ s hs := ⟨s, hf ▸ hs, .refl s⟩

theorem of_quiet (h : Quiet w w') : Later w w' := of_eq h.hubs h.heap h.fibers

theorem modifyHub (h : HubId) {f : Hub → Hub} (hf : ∀ s : Hub, s.Later (f s)) :
    Later w (w.modifyHub h f) where
  hubs i s hs := by
    simp only [World.modifyHub, Array.getElem?_modify]
    split
    · exact ⟨f s, by simp [hs], hf s⟩
    · exact ⟨s, hs, rfl, rfl, id⟩
  size := Nat.le_refl _
  objects _ o _ ho := ⟨o, ho, fun g hg => ⟨g, hg, .refl g⟩, id⟩
  fibers _ s hs := ⟨s, hs, .refl s⟩

theorem modifyHub' (h : HubId) {f : Hub → Hub}
    (hf : ∀ s, (f s).thread = s.thread ∧ (f s).main = s.main ∧ (f s).closed = s.closed) :
    Later w (w.modifyHub h f) :=
  modifyHub h fun s => ⟨(hf s).1, (hf s).2.1, fun hc => (hf s).2.2.trans hc⟩

theorem modifyObject (r : Ref) {f : Object → Object}
    (hf : ∀ o, w.object? r = some o →
      (∀ g, o.value = .greenlet g → ∃ g', (f o).value = .greenlet g' ∧ g.Later g') ∧
      (o.value.greenlet? = none → (f o).value.greenlet? = none)) :
    Later w (w.modifyObject r f) where
  hubs _ s hs := ⟨s, hs, rfl, rfl, id⟩
  size := by simp [World.modifyObject]
  objects q o _ ho := by
    rw [object?_modifyObject] at ho
    split at ho
    · subst_vars
      obtain ⟨o₁, ho₁, rfl⟩ := Option.map_eq_some_iff.mp ho
      exact ⟨o₁, ho₁, hf o₁ ho₁⟩
    · exact ⟨o, ho, fun g hg => ⟨g, hg, .refl g⟩, id⟩
  fibers _ s hs := ⟨s, hs, .refl s⟩

theorem setCount (r : Ref) {f : Object → Object} (hf : ∀ o, (f o).value = o.value) :
    Later w (w.modifyObject r f) :=
  modifyObject r fun o _ => ⟨fun g hg => ⟨g, (hf o).trans hg, .refl g⟩, fun h => by rwa [hf]⟩

theorem retain (r : Ref) : Later w (w.retain r) := setCount r fun _ => rfl

theorem modifyGreenlet (r : Ref) {f : Greenlet → Greenlet}
    (hf : ∀ g, w.greenlet? r = some g → g.Later (f g)) : Later w (w.modifyGreenlet r f) := by
  refine modifyObject r fun o ho => ?_
  obtain ⟨n, v⟩ := o
  cases v with
  | greenlet g =>
    refine ⟨fun g' hg' => ?_, fun h => by cases h⟩
    cases hg'
    exact ⟨f g, rfl, hf g (greenlet?_eq_some_iff.mpr ⟨n, ho⟩)⟩
  | _ => exact ⟨fun g' hg' => (by cases hg'), fun h => h⟩

theorem setState (r : Ref) (s : RunState) : Later w (w.setState r s) :=
  modifyGreenlet r fun g _ => ⟨rfl, rfl, rfl, rfl, fun h => by simp [RunState.moveTo, h, RunState.isDead],
    fun h => h⟩

theorem alloc (v : Value) : Later w (w.alloc v).2 where
  hubs _ s hs := ⟨s, hs, rfl, rfl, id⟩
  size := by simp [World.alloc]
  objects r o hr ho := by
    rw [object?_alloc, if_neg (Nat.ne_of_lt hr)] at ho
    exact ⟨o, ho, fun g hg => ⟨g, hg, .refl g⟩, id⟩
  fibers _ s hs := ⟨s, hs, .refl s⟩

theorem erase (r : Ref) : Later w (w.erase r) where
  hubs _ s hs := ⟨s, hs, rfl, rfl, id⟩
  size := by simp [World.erase]
  objects q o _ ho := by
    rw [object?_erase] at ho
    split at ho
    · cases ho
    · exact ⟨o, ho, fun g hg => ⟨g, hg, .refl g⟩, id⟩
  fibers _ s hs := ⟨s, hs, .refl s⟩

theorem modifyFiber (f : FiberId) {g : Fiber Task → Fiber Task}
    (hg : ∀ s : Fiber Task, s.Later (g s)) :
    Later w (w.modifyFiber f g) where
  hubs _ s hs := ⟨s, hs, rfl, rfl, id⟩
  size := Nat.le_refl _
  objects _ o _ ho := ⟨o, ho, fun g hg => ⟨g, hg, .refl g⟩, id⟩
  fibers i s hs := by
    simp only [World.modifyFiber, Array.getElem?_modify]
    split
    · exact ⟨g s, by simp [hs], hg s⟩
    · exact ⟨s, hs, .refl s⟩

theorem setControl {c : Control Task}
    (hc : ∀ (f : FiberId) s, w.fibers[f]? = some s → ∃ s', c.fibers[f]? = some s' ∧ s.Later s') :
    Later w (w.setControl c) where
  hubs _ s hs := ⟨s, hs, rfl, rfl, id⟩
  size := Nat.le_refl _
  objects _ o _ ho := ⟨o, ho, fun g hg => ⟨g, hg, .refl g⟩, id⟩
  fibers := hc

theorem createHub (w : World) : Later w w.createHub.2 := by
  obtain ⟨-, id, hq⟩ := createHub_quiet w
  have h₁ : Later w ((w.alloc (.greenlet (w.newMain id))).2.retain w.heap.size) :=
    (alloc _).trans (retain _)
  refine (h₁.trans ?_).trans (of_quiet hq)
  refine ⟨fun h s hs => ⟨s, ?_, rfl, rfl, fun h => h⟩, Nat.le_refl _,
    fun r o _ ho => ⟨o, ho, fun g hg => ⟨g, hg, .refl g⟩, fun h => h⟩,
    fun f s hs => ⟨s, hs, .refl s⟩⟩
  have hlt : h < w.hubs.size := by
    by_contra hn
    have he : ((w.alloc (.greenlet (w.newMain id))).2.retain w.heap.size).hubs = w.hubs := rfl
    rw [he, Array.getElem?_eq_none (Nat.le_of_not_lt hn)] at hs
    cases hs
  simp only [Array.getElem?_push]
  rw [if_neg (Nat.ne_of_lt hlt)]
  exact hs

theorem effect {hand hand' : List Token} (e : Effect .full hand w hand' w') : Later w w' := by
  induction e with
  | trade => exact refl _
  | quiet h => exact of_quiet h
  | trans _ _ ih ih' => exact ih.trans ih'
  | push | frame | take | call | collect | tables | spawn => exact of_eq rfl rfl rfl
  | register f => exact (alloc (.failure f)).trans (of_eq rfl rfl rfl)
  | fail => exact of_eq rfl rfl rfl
  | alloc v => exact alloc v
  | retain r => exact retain r
  | holdHub h => exact modifyHub' h fun _ => ⟨rfl, rfl, rfl⟩
  | makeHome => exact (createHub _).trans (of_eq rfl rfl rfl)
  | create _ _ hc =>
    obtain ⟨-, -, -, id, hq⟩ := createGreenlet_ok hc
    refine Later.trans ?_ (of_quiet hq)
    exact ((retain _).trans (alloc _)).trans (modifyHub' _ fun _ => ⟨rfl, rfl, rfl⟩)
  | setParent _ _ hs =>
    obtain ⟨-, -, rfl⟩ := setParent_ok hs
    exact (retain _).trans (modifyGreenlet _ fun g _ => ⟨rfl, rfl, rfl, rfl, fun h => h, fun h => h⟩)

section

variable (h : Later w w')
include h

theorem hub {i : HubId} (hi : i < w.hubs.size) :
    i < w'.hubs.size ∧ (w'.hub i).thread = (w.hub i).thread ∧ (w'.hub i).main = (w.hub i).main ∧
      ((w.hub i).closed = true → (w'.hub i).closed = true) := by
  obtain ⟨s', hs', hl⟩ := h.hubs i _ (Array.getElem?_eq_getElem hi)
  have hlt : i < w'.hubs.size := by
    by_contra hn
    simp [Array.getElem?_eq_none (Nat.le_of_not_lt hn)] at hs'
  rw [hub_of_some hs', hub_of_some (Array.getElem?_eq_getElem hi)]
  exact ⟨hlt, hl.thread, hl.main, hl.closed⟩

theorem fiberD {f : FiberId} (hf : f < w.fibers.size) :
    f < w'.fibers.size ∧ (w.fiberD f).Later (w'.fiberD f) := by
  obtain ⟨s', hs', hl⟩ := h.fibers f _ (Array.getElem?_eq_getElem hf)
  have hlt : f < w'.fibers.size := by
    by_contra hn
    simp [Array.getElem?_eq_none (Nat.le_of_not_lt hn)] at hs'
  rw [fiberD_of_some hs', fiberD_of_some (Array.getElem?_eq_getElem hf)]
  exact ⟨hlt, hl⟩

theorem greenlet? {r : Ref} (hr : r < w.heap.size) {g' : Greenlet}
    (hg : w'.greenlet? r = some g') : ∃ g, w.greenlet? r = some g ∧ g.Later g' := by
  obtain ⟨n, ho⟩ := greenlet?_eq_some_iff.mp hg
  obtain ⟨⟨m, v⟩, ho', hl, hn⟩ := h.objects r _ hr ho
  cases v with
  | greenlet g =>
    obtain ⟨g₁, hg₁, hl⟩ := hl g rfl
    cases hg₁
    exact ⟨g, greenlet?_eq_some_iff.mpr ⟨m, ho'⟩, hl⟩
  | _ => cases hn rfl

end

end Later

end Switchyard
