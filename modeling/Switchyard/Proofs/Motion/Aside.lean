import Switchyard.Proofs.Motion.Basic

/-!
# What no motion reaches

Each update works for the active thread. The stacks and the slots of all other threads stay as they
are, and so do the fibers that are not to be worked on.
-/

namespace Switchyard

/-- The thread has the same on its stack and in its slots. -/
structure Thread.Alike (t t' : Thread) : Prop where
  stack : t'.stack = t.stack
  pending : t'.pending = t.pending
  home : t'.home = t.home

theorem Thread.Alike.refl (t : Thread) : t.Alike t := ⟨rfl, rfl, rfl⟩

theorem Thread.Alike.trans {t t' t'' : Thread} (h : t.Alike t') (h' : t'.Alike t'') :
    t.Alike t'' :=
  ⟨h'.stack.trans h.stack, h'.pending.trans h.pending, h'.home.trans h.home⟩

namespace World

variable {w w' w'' : World} {i : Nat}

/-- The thread at place `i`, if another one is at work, goes on waiting as it is. -/
def Aside (i : Nat) (w w' : World) : Prop :=
  ∀ t, i ≠ w.active - 1 → w.threads[i]? = some t →
    i ≠ w'.active - 1 ∧ ∃ t', w'.threads[i]? = some t' ∧ t.Alike t'

namespace Aside

theorem trans (h : Aside i w w') (h' : Aside i w' w'') : Aside i w w'' := fun t hi ht => by
  obtain ⟨hi', t', ht', ha⟩ := h t hi ht
  obtain ⟨hi'', t'', ht'', ha'⟩ := h' t' hi' ht'
  exact ⟨hi'', t'', ht'', ha.trans ha'⟩

theorem of_threads (ht : w'.threads = w.threads) (ha : w'.active = w.active) : Aside i w w' :=
  fun t hi h => ⟨ha ▸ hi, t, ht ▸ h, .refl t⟩

theorem of_quiet (hq : Quiet w w') : Aside i w w' := fun t hi ht => by
  obtain ⟨t', ht', hs, hp, hh, -⟩ := hq.getElem?_threads ht
  exact ⟨hq.active ▸ hi, t', ht', hs, hp, hh⟩

theorem modifyThread (f : Thread → Thread) : Aside i w (w.modifyThread f) := fun t hi ht =>
  ⟨hi, t, by simp [World.modifyThread, Array.getElem?_modify, Ne.symm hi, ht], .refl t⟩

theorem setControl (c : Control Task) : Aside i w (w.setControl c) :=
  (modifyThread fun t => { t with stack := c.stack }).trans (of_threads rfl rfl)

theorem spawnStep (steps : List Script.Step) : Aside i w (w.spawnStep steps) := by
  refine (modifyThread fun t => { t with
    stack := [Task.join (w.threads.size + 1)].map .task ++ t.stack }).trans fun t _ ht => ?_
  have hlt := (Array.getElem?_eq_some_iff.mp ht).1
  have hsize : (w.modifyThread fun t => { t with
      stack := [Task.join (w.threads.size + 1)].map .task ++ t.stack }).threads.size =
      w.threads.size := by simp [World.modifyThread]
  refine ⟨fun he => ?_, t, ?_, .refl t⟩
  · have : i = w.threads.size := he
    omega
  · simp only [World.spawnStep, World.push, Array.getElem?_push]
    rw [if_neg (Nat.ne_of_lt hlt)]
    exact ht

theorem newHubStep (name : String) : Aside i w (w.newHubStep name) := by
  have h : Aside i w { w.createHub.2 with
    named := w.createHub.2.named.insert name w.hubs.size } := of_threads rfl rfl
  exact h.trans (modifyThread _)

end Aside

end World

open World

theorem Effect.aside {L : Licence} {hand hand' : List Token} {w w' : World}
    (e : Effect L hand w hand' w') (i : Nat) : Aside i w w' := by
  induction e with
  | trans _ _ ih ih' => exact ih.trans ih'
  | quiet hq => exact .of_quiet hq
  | push | frame | take | call | collect => exact .modifyThread _
  | @register _ v f =>
    have ha : Aside i v (v.alloc (.failure f)).2 := .of_threads rfl rfl
    exact ha.trans (.modifyThread _)
  | makeHome =>
    obtain ⟨-, id, hq⟩ := createHub_quiet ‹World›
    refine Aside.trans (Aside.trans ?_ (.of_quiet hq)) (.modifyThread _)
    exact .of_threads rfl rfl
  | create _ _ hc =>
    obtain ⟨-, -, -, id, hq⟩ := createGreenlet_ok hc
    refine Aside.trans ?_ (.of_quiet hq)
    exact .of_threads rfl rfl
  | setParent _ _ hs =>
    obtain ⟨-, -, rfl⟩ := setParent_ok hs
    exact .of_threads rfl rfl
  | spawn steps => exact .spawnStep steps
  | fail p => exact (Aside.modifyThread _).trans (.modifyThread _)
  | _ => exact .of_threads rfl rfl

theorem Motion.aside {L : Licence} {hand hand' : List Token} {w w' : World}
    (m : Motion L hand w hand' w') (i : Nat) : Aside i w w' := by
  induction m with
  | script e => exact e.aside i
  | trans _ _ ih ih' => exact ih.trans ih'
  | control => exact .setControl _
  | expire | vacate => exact .modifyThread _
  | retire =>
    split <;> exact .of_threads rfl rfl
  | _ => exact .of_threads rfl rfl

theorem Effect.fibers {L : Licence} {hand hand' : List Token} {w w' : World}
    (e : Effect L hand w hand' w') : w'.fibers = w.fibers := by
  induction e with
  | trans _ _ ih ih' => exact ih'.trans ih
  | quiet hq => exact hq.fibers
  | makeHome =>
    obtain ⟨-, id, hq⟩ := createHub_quiet ‹World›
    exact hq.fibers
  | create _ _ hc =>
    obtain ⟨-, -, -, id, hq⟩ := createGreenlet_ok hc
    exact hq.fibers
  | setParent _ _ hs =>
    obtain ⟨-, -, rfl⟩ := setParent_ok hs
    rfl
  | _ => rfl

theorem Motion.spares {L : Licence} {hand hand' : List Token} {w w' : World}
    (m : Motion L hand w hand' w') {f : FiberId} (hf : ¬ L.fibers f) {s : Fiber Task}
    (hs : w.fibers[f]? = some s) : w'.fibers[f]? = some s := by
  induction m with
  | script e => rwa [e.fibers]
  | trans _ _ ih ih' => exact ih' (ih hs)
  | control _ hsp => exact (hsp f hf (Array.getElem?_eq_some_iff.mp hs).1).trans hs
  | retire =>
    split <;> exact hs
  | _ => exact hs

end Switchyard
