import Switchyard.Proofs.Signals.Tolerant

/-!
# What releases leave

Dropping references, releasing stacks and shutting hubs may happen anywhere. Beside tasks that
signals pass they leave tasks that may stand in any context, and they give up fibers.
-/

namespace Switchyard

/-- The task may stand anywhere, but not every signal passes it. -/
def Task.isLoose : Task → Bool
  | rootEnd | reclaim _ | released .. | drain _ | teardownQueues .. | teardownCurrent ..
  | teardownEnd .. => true
  | t => t.isNeutral

theorem Task.isLoose_of_isNeutral {t : Task} (h : t.isNeutral = true) : t.isLoose = true := by
  cases t with
  | rootEnd | reclaim | released | drain | teardownQueues | teardownCurrent | teardownEnd => rfl
  | _ => exact h

theorem Task.all_isLoose_of_neutral {ts : List Task} (h : ts.all isNeutral = true) :
    ts.all isLoose = true := by
  simp only [List.all_eq_true] at h ⊢
  exact fun t ht => isLoose_of_isNeutral (h t ht)

namespace Context

variable {c : Context} {t : Task} {ts : List Task}

theorem task_of_isLoose (h : t.isLoose = true) : ∃ c', task t c = some c' := by
  cases t with
  | rootEnd => exact ⟨_, rfl⟩
  | reclaim | released | drain | teardownQueues | teardownCurrent | teardownEnd => exact ⟨_, rfl⟩
  | _ => exact ⟨c, task_of_isNeutral h⟩

theorem upon_loose (h : ts.all Task.isLoose = true) : ∃ c', c.upon (ts.map .task) = some c' := by
  induction ts with
  | nil => exact ⟨c, rfl⟩
  | cons t ts ih =>
    simp only [List.all_cons, Bool.and_eq_true] at h
    obtain ⟨c₁, h₁⟩ := ih h.2
    rw [List.map_cons, upon_cons, h₁]
    exact task_of_isLoose h.1

end Context

namespace World

variable {P : World → Prop} {w : World}

/-- Wherever it holds, it still holds after tasks were added that may stand anywhere, and after a
fiber was given up. -/
structure Robust (P : World → Prop) : Prop extends Tolerant P where
  loose {w : World} (hs : P w) {ts : List Task} (ht : ts.all Task.isLoose = true) : P (w.push ts)
  /-- The steps that a dropped value runs have a frame of their own. -/
  cleanup {w : World} (hs : P w) (steps : List Script.Step) (name : String) :
    P (w.push [.steps steps, .dropEnd name, .frame {}, .rootEnd])
  unshare {w : World} (hs : P w) (f : FiberId) : P (w.unshare f)
  unwind {w : World} (hs : P w) (f : FiberId) : P (w.unwind f)
  abandonStack {w : World} (hs : P w) (r : Ref) : P (w.abandonStack r).2

namespace Robust

variable (R : Robust P)
include R

theorem releaseHook (hs : P w) (r : Ref) : P (w.releaseHook r) := by
  have hk := R.modifyObject hs r fun o => { o with count := 1 }
  unfold World.releaseHook
  simp only
  split
  · split
    · exact R.neutral (R.modifyHub hs _ _) rfl
    · exact R.neutral hs rfl
  · split
    · exact R.neutral (R.abandonStack (R.write hs _ _) r) rfl
    · split
      · exact R.neutral (R.modifyStats (R.abandonStack
          (R.modifyHub (R.write hs _ _) _ _) r) _ _) rfl
      · split
        · exact R.modifyHub (R.write hk _ _) _ _
        · split
          · exact R.loose (R.modifyHub hk _ _) rfl
          · exact R.defer hk _ r

theorem lastDropped (hs : P w) (r : Ref) (v : Value) : P (w.lastDropped r v) := by
  unfold World.lastDropped
  split
  · split
    · exact R.neutral hs rfl
    · exact R.releaseHook hs r
  · rename_i name lives
    have h₁ := R.modifyObject hs r fun _ => ⟨1, .phoenix name lives⟩
    have h₂ := R.level (R.level h₁ (.event "revive" [.text name, .nat lives]))
      (.bindObject name (some r))
    exact R.neutral h₂ (Task.all_isNeutral_toList_drop _)
  · exact R.neutral hs rfl

theorem drop (hs : P w) (r : Ref) : P (w.drop r) := by
  unfold World.drop
  split
  · exact hs
  · have h₁ := R.modifyObject hs r fun o => { o with count := o.count - 1 }
    simp only
    split
    · exact R.lastDropped h₁ r _
    · exact h₁

theorem destroy (hs : P w) (r : Ref) : P (w.destroy r) := by
  have h₁ : P { w with lock := (w.lock.ensure? w.active).getD w.lock } :=
    R.level hs (.of_eq rfl rfl rfl)
  unfold World.destroy
  simp only
  split
  · exact R.loose h₁ rfl
  · exact R.loose (R.level h₁ (.event _ _)) rfl
  · rename_i g _
    refine R.loose (R.modifyGreenlet h₁ _ _) ?_
    have hp : (greenletParts g).all Task.isNeutral = true := by
      unfold greenletParts
      rw [List.all_append, List.all_append, List.all_append, Task.all_isNeutral_toList_drop]
      cases g.run <;> cases g.fiber <;> cases g.inbox <;>
        simp only [Option.map_none, Option.map_some, Option.getD_none, Option.getD_some,
          Task.all_isNeutral_dropRun, Task.all_isNeutral_dropPayload] <;> rfl
    rw [List.all_append, Task.all_isLoose_of_neutral hp]
    rfl
  · exact R.loose h₁ rfl

theorem dropPinned (hs : P w) (p : Pinned FiberId) : P (w.dropPinned p) := by
  unfold World.dropPinned
  split
  · exact R.unshare hs _
  · exact hs

theorem dropCanary (hs : P w) (x : Script.Canary) : P (w.dropCanary x) := by
  have h₁ := R.level hs (.event "drop" [.text x.name])
  unfold World.dropCanary
  simp only
  split
  · exact h₁
  · exact R.cleanup h₁ _ _

theorem release (hs : P w) (h : HubId) (r : Ref) : P (w.release h r) := by
  have h₁ := R.modifyGreenlet hs r fun g => { g with state := .dead, fiber := none }
  have h₂ := R.modifyHub h₁ h fun s => { s with releasing := true }
  unfold World.release
  simp only
  split
  · exact R.neutral h₁ rfl
  · split
    · exact R.loose h₂ rfl
    · exact R.unwind (R.loose (R.write h₂ _ _) rfl) _

theorem drain (hs : P w) (h : HubId) : P (w.drain h) := by
  have h₁ := R.modifyStats (R.modifyHub hs h fun s => { s with deferred := [], foreign := [] }) h
    fun t => { t with
      deferred := t.deferred + (w.hub h).foreign.length
      drained := t.drained + ((w.hub h).deferred ++ (w.hub h).foreign).length }
  unfold World.drain
  simp only
  split
  · exact hs
  · split
    · exact h₁
    · refine R.loose h₁ ?_
      rw [List.all_append, Task.all_isLoose_of_neutral (by simp [Task.isNeutral])]
      rfl

theorem shutGreenlet (hs : P w) (r : Ref) :
    (w.shutGreenlet r).2.1.all Task.isNeutral = true ∧ P (w.shutGreenlet r).2.2 := by
  refine ⟨?_, R.modifyGreenlet (R.abandonStack hs r) r _⟩
  unfold World.shutGreenlet
  simp only [List.all_append, Bool.and_eq_true]
  refine ⟨?_, ?_⟩
  · cases ((w.abandonStack r).2.greenlet r).run with
    | none => rfl
    | some run => exact Task.all_isNeutral_dropRun run
  · cases ((w.abandonStack r).2.greenlet r).inbox with
    | none => rfl
    | some p => exact Task.all_isNeutral_dropPayload p

private theorem shutAll (rs : List Ref) (n : Nat) {drops : List Task} (hs : P w)
    (hd : drops.all Task.isNeutral = true) :
    (rs.foldl shutNext (n, drops, w)).2.1.all Task.isNeutral = true ∧
      P (rs.foldl shutNext (n, drops, w)).2.2 := by
  induction rs generalizing w n drops with
  | nil => exact ⟨hd, hs⟩
  | cons r rs ih =>
    obtain ⟨hd', h₁⟩ := R.shutGreenlet hs r
    exact ih _ h₁ (by rw [List.all_append, hd]; exact hd')

theorem teardown (hs : P w) (h : HubId) : P (w.teardown h) := by
  unfold World.teardown
  simp only
  split
  · exact hs
  · have h₁ := R.modifyHub hs h fun s => { s with closed := true, nodes := [] }
    obtain ⟨hd, h₂⟩ := R.shutAll (w.hub h).nodes 0 h₁ (show [].all Task.isNeutral = true from rfl)
    refine R.loose (R.modifyStats h₂ h _) ?_
    rw [List.all_append, Task.all_isLoose_of_neutral hd]
    rfl

theorem teardownQueues (hs : P w) (h : HubId) (n : Nat) : P (w.teardownQueues h n) := by
  refine R.loose (R.modifyHub hs h _) ?_
  rw [List.all_append, List.all_append,
    Task.all_isLoose_of_neutral (Task.all_isNeutral_map_drop _),
    Task.all_isLoose_of_neutral (Task.all_isNeutral_dropOutgoing _)]
  rfl

theorem teardownCurrent (hs : P w) (h : HubId) (n : Nat) : P (w.teardownCurrent h n) :=
  R.loose (R.modifyHub (R.modifyObject (R.modifyObject hs _ _) _ _) h _) rfl

theorem teardownEnd (hs : P w) (h : HubId) (main : Ref) (n : Nat) : P (w.teardownEnd h main n) :=
  R.neutral (R.write (R.modifyGreenlet hs _ _) _ _) rfl

theorem failTask (hs : P w) (p : Panic) (t : Task) : P (w.failTask p t) := by
  have hc : P w.calm := R.modifyThread hs _ fun _ => rfl
  unfold World.failTask
  split
  · have h₁ := R.note hc (Script.nestingName (.attemptPanic ‹Bool›)) [panicDatum p]
    simp only
    split
    · exact R.fail h₁ p
    · exact h₁
  · exact R.level hc (.event _ _)
  · split
    · exact R.neutral hs rfl
    · exact R.postResult hc _ _ _
  · refine R.exitThread (R.modifyThread hc _ fun _ => ?_)
    rfl
  · refine R.neutral hs ?_
    rw [List.all_append, Task.all_isNeutral_cleanup]
    rfl

theorem collectStep (hs : P w) (hub : Option String) : P (w.collectStep hub) := by
  unfold World.collectStep World.hubStep
  split
  · rename_i e w₁ hh
    exact R.note (R.hubFor hs hh) _ _
  · rename_i h w₁ hh
    exact R.loose (R.modifyHub (R.hubFor hs hh) h _) rfl

end Robust

end World

end Switchyard
