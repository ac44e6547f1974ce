import Switchyard.Proofs.Effect.Run
import Switchyard.Proofs.Stack

/-!
# Updates that no fiber notices

They leave the lock, the fibers and the places of bases alone, and put no fiber anywhere.
-/

namespace Switchyard

open World

structure Tame (w w' : World) : Prop where
  lock : w'.lock = w.lock
  fibers : w'.fibers = w.fibers
  lost : w'.lost = w.lost
  stackAt : ∀ i, Item.Similar (w.stackAt i) (w'.stackAt i)
  pins : ∀ r p, (w'.greenlet r).fiber = some p → (w.greenlet r).fiber = some p
  manned : w.Manned → w'.Manned

namespace Tame

variable {w w' w'' : World}

theorem refl (w : World) : Tame w w := ⟨rfl, rfl, rfl, fun _ => .refl _, fun _ _ h => h, id⟩

theorem trans (h : Tame w w') (h' : Tame w' w'') : Tame w w'' where
  lock := h'.lock.trans h.lock
  fibers := h'.fibers.trans h.fibers
  lost := h'.lost.trans h.lost
  stackAt i := (h.stackAt i).trans (h'.stackAt i)
  pins r p hp := h.pins r p (h'.pins r p hp)
  manned hw := h'.manned (h.manned hw)

theorem of_quiet (h : Quiet w w') : Tame w w' where
  lock := h.lock
  fibers := h.fibers
  lost := h.lost
  stackAt i := by rw [h.stackAt]; exact .refl _
  pins r p hp := by rwa [greenlet_eq, h.greenlet?, ← greenlet_eq] at hp
  manned := h.manned

theorem modifyThread (hw : w.Seated) {f : Thread → Thread}
    (hs : Item.Similar w.thread.stack (f w.thread).stack)
    (hp : ∀ t, (f t).parent = t.parent) : Tame w (w.modifyThread f) where
  lock := rfl
  fibers := rfl
  lost := rfl
  stackAt i := by
    rw [stackAt_modifyThread hw]
    split
    · subst_vars
      rw [← stack_eq_stackAt]
      exact hs
    · exact .refl _
  pins _ _ h := h
  manned h := h.modifyThread hp

theorem push (hw : w.Seated) {l : List Task} (h : l.all Task.isLight = true) :
    Tame w (w.push l) :=
  modifyThread hw (.push h) fun _ => rfl

theorem fail (hw : w.Seated) (p : Panic) : Tame w (w.fail p) :=
  (push (l := [.fail p]) hw rfl).trans
    (of_quiet (.modifyThread fun _ => ⟨rfl, rfl, rfl, rfl⟩))

theorem modifyHub (h : HubId) (f : Hub → Hub) : Tame w (w.modifyHub h f) :=
  ⟨rfl, rfl, rfl, fun _ => .refl _, fun _ _ h => h, (·.of_eq rfl rfl)⟩

theorem modifyObject (r : Ref) {f : Object → Object}
    (hf : ∀ o g p, w.object? r = some o → (f o).value.greenlet? = some g → g.fiber = some p →
      ∃ g', o.value.greenlet? = some g' ∧ g'.fiber = some p) :
    Tame w (w.modifyObject r f) where
  lock := rfl
  fibers := rfl
  lost := rfl
  stackAt _ := .refl _
  pins q p hp := by
    rw [greenlet_eq] at hp ⊢
    by_cases hq : r = q
    · subst hq
      cases ho : w.object? r with
      | none => simpa [greenlet?, object?_modifyObject, ho] using hp
      | some o =>
        cases hg : (f o).value.greenlet? with
        | none => simp [greenlet?, object?_modifyObject, ho, hg, Greenlet.absent] at hp
        | some g =>
          simp only [greenlet?, object?_modifyObject, ho, if_true, Option.map_some,
            Option.bind_some, hg, Option.getD_some] at hp
          obtain ⟨g', hg', hp'⟩ := hf o g p ho hg hp
          simp [greenlet?, ho, hg', hp']
    · simpa [greenlet?, object?_modifyObject, hq] using hp
  manned h := h.of_eq rfl rfl

theorem setCount (r : Ref) {f : Object → Object} (hf : ∀ o, (f o).value = o.value) :
    Tame w (w.modifyObject r f) :=
  modifyObject r fun o g p _ hg hp => ⟨g, by rwa [hf o] at hg, hp⟩

theorem retain (r : Ref) : Tame w (w.retain r) := setCount r fun _ => rfl

theorem modifyGreenlet (r : Ref) {f : Greenlet → Greenlet}
    (hf : ∀ p, (f (w.greenlet r)).fiber = some p → (w.greenlet r).fiber = some p) :
    Tame w (w.modifyGreenlet r f) := by
  refine modifyObject r fun o g p ho hg hp => ?_
  obtain ⟨n, v⟩ := o
  cases v with
  | greenlet g' =>
    obtain rfl : f g' = g := by simpa [Value.greenlet?] using hg
    refine ⟨g', rfl, ?_⟩
    have : w.greenlet r = g' := greenlet_of_some (greenlet?_eq_some_iff.mpr ⟨n, ho⟩)
    rw [← this] at hp ⊢
    exact hf p hp
  | _ => cases hg

theorem unpin (r : Ref) {f : Greenlet → Greenlet} (hf : ∀ g, (f g).fiber = none) :
    Tame w (w.modifyGreenlet r f) :=
  modifyGreenlet r fun p hp => by
    rw [hf] at hp
    cases hp

theorem alloc {v : Value} (hv : ∀ g, v.greenlet? = some g → g.fiber = none) :
    Tame w (w.alloc v).2 where
  lock := rfl
  fibers := rfl
  lost := rfl
  stackAt _ := .refl _
  pins r p hp := by
    rw [greenlet_eq] at hp ⊢
    by_cases hr : r = w.heap.size
    · cases hg : v.greenlet? with
      | none => simp [greenlet?, object?_alloc, hr, hg, Greenlet.absent] at hp
      | some g => simp [greenlet?, object?_alloc, hr, hg, hv g hg] at hp
    · simpa [greenlet?, object?_alloc, hr] using hp
  manned h := h.of_eq rfl rfl

theorem erase (r : Ref) : Tame w (w.erase r) where
  lock := rfl
  fibers := rfl
  lost := rfl
  stackAt _ := .refl _
  pins q p hp := by
    rw [greenlet_eq] at hp ⊢
    by_cases hq : r = q
    · simp [greenlet?, object?_erase, hq, Greenlet.absent] at hp
    · simpa [greenlet?, object?_erase, hq] using hp
  manned h := h.of_eq rfl rfl

theorem setState (r : Ref) (s : RunState) : Tame w (w.setState r s) :=
  modifyGreenlet r fun _ h => h

theorem createHub (w : World) : Tame w w.createHub.2 := by
  obtain ⟨-, id, hq⟩ := createHub_quiet w
  refine .trans ?_ (of_quiet hq)
  have ha : Tame w (w.alloc (.greenlet (w.newMain id))).2 := alloc fun g hg => by cases hg; rfl
  exact (ha.trans (retain w.heap.size)).trans
    ⟨rfl, rfl, rfl, fun _ => .refl _, fun _ _ h => h, (·.of_eq rfl rfl)⟩

theorem createGreenlet {h : HubId} {run : RunFn} {p : Option Ref} {r : Ref}
    (hc : w.createGreenlet h run p = (.ok r, w')) : Tame w w' := by
  obtain ⟨-, -, -, id, hq⟩ := createGreenlet_ok hc
  refine .trans ?_ (of_quiet hq)
  exact ((retain _).trans (alloc fun g hg => by cases hg; rfl)).trans (modifyHub _ _)

theorem spawnStep (hw : w.Seated) (steps : List Script.Step) : Tame w (w.spawnStep steps) where
  lock := rfl
  fibers := rfl
  lost := rfl
  stackAt i := by
    have hp := (push (l := [.join (w.threads.size + 1)]) hw rfl).stackAt i
    by_cases hi : i = w.threads.size
    · have h₁ : w.stackAt i = [] := by simp [World.stackAt, hi]
      have h₂ : (w.spawnStep steps).stackAt i =
          [.steps steps, .frame {}, .rootEnd, .exitThread].map Item.task ++ [] := by
        simp only [World.stackAt, World.spawnStep, World.push, World.modifyThread, Array.getElem?_push,
          Array.size_modify, hi, if_true, Option.map_some, Option.getD_some, List.append_nil]
      rw [h₁, h₂]
      exact .push rfl
    · have h₁ : (w.spawnStep steps).stackAt i =
          (w.push [.join (w.threads.size + 1)]).stackAt i := by
        simp only [World.stackAt, World.spawnStep, World.push, World.modifyThread, Array.getElem?_push,
          Array.size_modify, hi, if_false]
      rw [h₁]
      exact hp
  pins _ _ h := h
  manned h := by
    have hp : (w.push [.join (w.threads.size + 1)]).Manned := h.modifyThread fun _ => rfl
    have hs : (w.push [.join (w.threads.size + 1)]).threads.size = w.threads.size := by
      simp [World.push, World.modifyThread]
    constructor
    · constructor <;> simp [World.spawnStep, World.push, World.modifyThread]
    · intro i t ht hi
      have hn : (w.spawnStep steps).threads.size = w.threads.size + 1 := by
        simp [World.spawnStep, World.push, World.modifyThread]
      rw [hn]
      simp only [World.spawnStep, Array.getElem?_push] at ht
      split at ht
      · obtain rfl := Option.some.inj ht
        exact ⟨hw.1, Nat.le_succ_of_le hw.2⟩
      · have := hp.parents i t ht hi
        rw [hs] at this
        exact ⟨this.1, Nat.le_succ_of_le this.2⟩

end Tame

open Tame in
theorem Effect.tame {hand hand' : List Token} {w w' : World} (e : Effect .full hand w hand' w')
    (hw : w.Seated) : Tame w w' := by
  induction e with
  | trade => exact .refl _
  | quiet h => exact .of_quiet h
  | trans e _ ih ih' => exact (ih hw).trans (ih' (e.seated hw))
  | push ts h =>
    exact .push hw (by
      simp only [List.all_eq_true] at h ⊢
      exact fun t ht => Task.isLight_of_isPlain (h t ht))
  | frame g => exact .modifyThread hw (.modifyFrameOf g _) fun _ => rfl
  | alloc v hv => exact .alloc fun g hg => by rw [hv] at hg; cases hg
  | retain r => exact .retain r
  | tables => exact ⟨rfl, rfl, rfl, fun _ => .refl _, fun _ _ h => h, (·.of_eq rfl rfl)⟩
  | @register _ v f =>
    have ha : Tame v (v.alloc (.failure f)).2 := .alloc fun g hg => by cases hg
    exact ha.trans (Tame.modifyThread (w := (v.alloc (.failure f)).2) hw (.refl _) fun _ => rfl)
  | take => exact .modifyThread hw (.refl _) fun _ => rfl
  | holdHub => exact .modifyHub _ _
  | makeHome =>
    exact (Tame.createHub _).trans
      (Tame.modifyThread (seated_createHub.mpr hw) (.refl _) fun _ => rfl)
  | create _ _ hc => exact .createGreenlet hc
  | setParent _ _ hs =>
    obtain ⟨-, -, rfl⟩ := setParent_ok hs
    exact (Tame.retain _).trans (.modifyGreenlet _ fun _ h => h)
  | call _ _ _ hu =>
    refine .push hw ?_
    rw [List.all_cons, List.all_cons, List.all_cons, Task.isLight_of_isPlain (Task.isPlain_of_lends hu)]
    rfl
  | collect => exact .push hw rfl
  | spawn steps => exact .spawnStep hw steps
  | fail p => exact .fail hw p

end Switchyard
