import Switchyard.Proofs.View

/-!
# Other threads

A step works on the stack of the active thread. What other threads have on their stacks and in their
slots stays.
-/

namespace Switchyard

namespace World

/-- The slot for the hub of a thread, which is gone for threads that do not exist. -/
def homeAt (w : World) (i : Nat) : Slot HubId := (w.threads[i]?.map Thread.home).getD .gone

theorem homeAt_active {w : World} (hw : w.Seated) : w.homeAt (w.active - 1) = w.thread.home := by
  rw [homeAt, hw.getElem?]
  rfl

/-- Nothing is different but hubs, objects, fibers and the stack of the active thread. -/
structure Beside (w w' : World) : Prop where
  active : w'.active = w.active
  named : w'.named = w.named
  size : w'.threads.size = w.threads.size
  manned : w.Manned → w'.Manned
  stackAt : ∀ i, i ≠ w.active - 1 → w'.stackAt i = w.stackAt i
  homeAt : ∀ i, w'.homeAt i = w.homeAt i

namespace Beside

variable {w w' w'' : World}

theorem of_threads (ht : w'.threads = w.threads) (ha : w'.active = w.active)
    (hn : w'.named = w.named) : Beside w w' where
  active := ha
  named := hn
  size := by rw [ht]
  manned h := h.of_eq ha ht
  stackAt i _ := by rw [World.stackAt, ht, World.stackAt]
  homeAt i := by rw [World.homeAt, ht, World.homeAt]

theorem trans (h : Beside w w') (h' : Beside w' w'') : Beside w w'' where
  active := h'.active.trans h.active
  named := h'.named.trans h.named
  size := h'.size.trans h.size
  manned hm := h'.manned (h.manned hm)
  stackAt i hi := (h'.stackAt i (h.active ▸ hi)).trans (h.stackAt i hi)
  homeAt i := (h'.homeAt i).trans (h.homeAt i)

theorem of_quiet (h : Quiet w w') : Beside w w' where
  active := h.active
  named := h.named
  size := h.size_threads
  manned := h.manned
  stackAt i _ := h.stackAt i
  homeAt i := by
    have hm := congrArg (·[i]?) h.threads
    simp only [Array.getElem?_map] at hm
    unfold World.homeAt
    cases h₀ : w.threads[i]? with
    | none =>
      rw [h₀] at hm
      rw [Option.map_eq_none_iff.mp hm]
    | some t =>
      obtain ⟨t', ht', -, -, hh, -⟩ := h.getElem?_threads h₀
      rw [ht']
      simp [hh]

theorem modifyThread (hw : w.Seated) {f : Thread → Thread}
    (hf : ∀ t, (f t).home = t.home ∧ (f t).parent = t.parent) :
    Beside w (w.modifyThread f) where
  active := rfl
  named := rfl
  size := by simp [World.modifyThread]
  manned h := h.modifyThread fun t => (hf t).2
  stackAt i hi := by rw [stackAt_modifyThread hw, if_neg hi]
  homeAt i := by
    unfold World.homeAt
    simp only [World.modifyThread, Array.getElem?_modify]
    split
    · cases w.threads[i]? with
      | none => rfl
      | some t => simp [(hf t).1]
    · rfl

theorem modifyHub (h : HubId) (f : Hub → Hub) : Beside w (w.modifyHub h f) :=
  of_threads rfl rfl rfl

theorem modifyGreenlet (r : Ref) (f : Greenlet → Greenlet) : Beside w (w.modifyGreenlet r f) :=
  of_threads rfl rfl rfl

theorem modifyFiber (f : FiberId) (g : Fiber Task → Fiber Task) : Beside w (w.modifyFiber f g) :=
  of_threads rfl rfl rfl

theorem push (hw : w.Seated) (ts : List Task) : Beside w (w.push ts) :=
  modifyThread hw fun _ => ⟨rfl, rfl⟩

theorem setControl (hw : w.Seated) (c : Control Task) : Beside w (w.setControl c) :=
  (modifyThread (f := fun t => { t with stack := c.stack }) hw fun _ => ⟨rfl, rfl⟩).trans
    (of_threads rfl rfl rfl)

end Beside

end World

end Switchyard
