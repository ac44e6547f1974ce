import Switchyard.Proofs.View
import Switchyard.Rally.Play
import Switchyard.Script.Transcript

/-!
# Runs

A process begins with a script or with a rally. It goes on by steps of the active thread; between
steps any thread may become the active one.
-/

namespace Switchyard

namespace World

/-- A process that has not made a step. -/
inductive Starts : World → Prop where
  | script (env : Environment) (bodies : List (String × List Script.Step))
      (main : List Script.Step) (fuel : Nat) : Starts (Script.start env bodies main fuel)
  | rally (env : Environment) :
      Starts ((World.fresh env).push [.rally (.start (Rally.rounds env)), .exitThread])

/-- A run from `w₀` to `w`, with the worlds that it made a step from, the latest first. -/
inductive Run (w₀ : World) : List World → World → Prop where
  | start : Run w₀ [] w₀
  | step {tr : List World} {w : World} (h : Run w₀ tr w) (hw : w.isHalted = false) :
      Run w₀ (w :: tr) w.next
  | yield {tr : List World} {w : World} {i : ThreadId} (h : Run w₀ tr w) (hi : 0 < i)
      (hs : i ≤ w.threads.size) : Run w₀ tr { w with active := i }

variable {w₀ w : World} {tr : List World}

/-- What the machine does by itself is a run. What holds of the first `n` worlds that it comes to
holds of those that the run makes steps from. -/
theorem Run.run_all (h : Run w₀ tr w) {p : World → Prop} {n : Nat} (hp : ∀ m < n, p (w.run m)) :
    ∃ tr', Run w₀ (tr' ++ tr) (w.run n) ∧ ∀ v ∈ tr', p v := by
  induction n generalizing w tr with
  | zero => exact ⟨[], h, nofun⟩
  | succ n ih =>
    by_cases hw : w.isHalted = true
    · exact ⟨[], by rwa [run_of_isHalted hw], nofun⟩
    · have hstep : w.step = some w.next := by simp [World.step, hw]
      obtain ⟨tr', hr, hall⟩ := ih (h.step (by simpa using hw)) fun m hm => by
        rw [← run_succ_of_step hstep]
        exact hp (m + 1) (Nat.succ_lt_succ hm)
      refine ⟨tr' ++ [w], ?_, fun v hv => ?_⟩
      · rw [run_succ_of_step hstep]
        simpa using hr
      · rcases List.mem_append.mp hv with hv | hv
        · exact hall v hv
        · obtain rfl := List.mem_singleton.mp hv
          exact hp 0 (Nat.succ_pos n)

theorem Run.run (h : Run w₀ tr w) (n : Nat) : ∃ tr', Run w₀ tr' (w.run n) :=
  let ⟨tr', hr, _⟩ := h.run_all (p := fun _ => True) (n := n) fun _ _ => trivial
  ⟨tr' ++ tr, hr⟩

theorem Run.append {tr₀ : List World} {w' : World} (h₀ : Run w₀ tr₀ w) (h : Run w tr w') :
    Run w₀ (tr ++ tr₀) w' := by
  induction h with
  | start => exact h₀
  | step _ hw ih => exact ih.step hw
  | yield _ hi hs ih => exact ih.yield hi hs

private theorem threads_push (ht : w.threads = #[{}]) (ha : w.active = 1) (ts : List Task) :
    (w.push ts).threads = #[{ stack := ts.map .task }] := by
  simp [World.push, World.modifyThread, ht, ha, Array.modify, Array.modifyM]

theorem Starts.bare (h : w.Starts) :
    w.lock = {} ∧ w.heap = #[] ∧ w.hubs = #[] ∧ w.fibers = #[] ∧ w.lost = [] ∧ w.active = 1 ∧
      ∃ ts : List Task, w.threads = #[{ stack := ts.map .task }] := by
  cases h with
  | script => exact ⟨rfl, rfl, rfl, rfl, rfl, rfl, _, threads_push rfl rfl _⟩
  | rally => exact ⟨rfl, rfl, rfl, rfl, rfl, rfl, _, threads_push rfl rfl _⟩

end World

end Switchyard
