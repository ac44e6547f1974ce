import Switchyard.Proofs.Signals.Tolerant

/-!
# Steps and signals

What a step leaves to do stands in the right context: the outcome of a switch meets a switch, the
early end of a frame meets a frame.
-/

namespace Switchyard

namespace World

namespace Stands

variable {w w' : World} {c c' : Context}

theorem callSwitch (hs : w.Stands .frame) (name : String) (target : Ref) (hub : Option String)
    (catches : Option Bool) (p : Payload) :
    ∃ c, (w.callSwitch name target hub catches p).Stands c := by
  unfold World.callSwitch
  split
  · rename_i h w₁ hh
    have h₁ : (w₁.holdHub h).Stands .frame := (tolerant.hubFor hs hh).level (.of_eq rfl rfl rfl)
    exact ⟨.floor, h₁.push rfl⟩
  · rename_i e w₁ hh
    refine ⟨.await, (tolerant.hubFor hs hh).push ?_⟩
    rw [Context.upon_neutral_append (Task.all_isNeutral_dropPayload p)]
    rfl

theorem switched (hs : w.Stands .frame) (name : String) (target : Ref) (catches : Option Bool)
    (outcome : Except SwitchError (Args Obj)) :
    (w.switched name target catches outcome).Stands .frame := by
  unfold World.switched
  cases outcome with
  | ok a =>
    refine tolerant.after (tolerant.swapLast hs a) ?_ _ _
    rw [List.all_append, Task.all_isNeutral_dropArgs]
    rfl
  | error e =>
    refine hs.push ?_
    rw [Context.upon_neutral_append rfl]
    split <;> rfl

theorem throwStep (hs : w.Stands .frame) (h : String) (f : Failure) (hub : Option String)
    (catches : Option Bool) : ∃ c, (w.throwStep h f hub catches).Stands c := by
  unfold World.throwStep
  split
  · rename_i w₁ hh
    exact ⟨.frame, tolerant.note (tolerant.handle hs hh) _ _⟩
  · rename_i r w₁ hh
    exact (tolerant.handle hs hh).callSwitch _ _ _ _ _

theorem bindStep (hs : w.Stands .frame) (at_ : Selector) (as_ : String) (catches : Option Bool) :
    (w.bindStep at_ as_ catches).Stands .frame := by
  have refused (o : Obj) : (bindStep.refused catches o w).Stands .frame := by
    unfold bindStep.refused
    refine (tolerant.note (hs.level (.raise _)) _ _).push ?_
    split <;> rfl
  unfold World.bindStep
  split
  · exact tolerant.note hs _ _
  · split
    · rename_i r _
      split
      · simpa using tolerant.bindingHandle (hs.level (.retain r)) as_ r [] rfl "bind" .ok
      · exact refused _
    · exact refused _

theorem built (hs : w.Stands .frame) (a : Args Obj) (purpose : Purpose) :
    ∃ c, (w.built a purpose).Stands c := by
  cases purpose with
  | switch target hub catches => exact hs.callSwitch _ _ _ _ _
  | replaceLast | extendLast =>
    exact ⟨.frame, tolerant.after (tolerant.swapLast hs a) (Task.all_isNeutral_dropArgs _) _ _⟩
  | ret => exact ⟨.frame, (tolerant.note hs _ _).push rfl⟩

theorem build (hs : w.Stands .frame) (acc : Args Obj) (positional : List Script.ValueSpec)
    (keywords : List (String × Script.ValueSpec)) (purpose : Purpose) :
    ∃ c, (w.build acc positional keywords purpose).Stands c := by
  unfold World.build
  simp only
  split
  · exact ⟨.frame, (hs.level (.eval _ _)).push rfl⟩
  · refine ⟨.frame, (hs.level (.eval _ _)).push ?_⟩
    rw [Context.upon_neutral_append (Task.all_isNeutral_toList_drop _)]
    rfl
  · exact hs.built acc purpose

theorem buildArgs (hs : w.Stands .frame) (a : Script.ArgsSpec) (purpose : Purpose) :
    ∃ c, (w.buildArgs a purpose).Stands c := by
  cases a with
  | received => exact (hs.level (.retainAll _)).built _ purpose
  | built positional keywords => exact ⟨.frame, hs.push rfl⟩

theorem switchStep (hs : w.Stands .frame) (h : String) (args : Script.ArgsSpec)
    (hub : Option String) (catches : Option Bool) :
    ∃ c, (w.switchStep h args hub catches).Stands c := by
  unfold World.switchStep
  split
  · rename_i w₁ hh
    exact ⟨.frame, tolerant.note (tolerant.handle hs hh) _ _⟩
  · rename_i r w₁ hh
    exact (tolerant.handle hs hh).buildArgs _ _

theorem nestStep (hs : w.Stands .frame) (how : Nesting) (steps : List Script.Step) :
    (w.nestStep how steps).Stands .frame :=
  (tolerant.swapLast hs .empty).push rfl

theorem deepStep (hs : w.Stands .frame) (n : Nat) (steps : List Script.Step) :
    (w.deepStep n steps).Stands .frame := by
  cases n <;> exact hs.nestStep _ _

theorem ifDeadStep (hs : w.Stands .frame) (h : String) (yes no : List Script.Step) :
    (w.ifDeadStep h yes no).Stands .frame :=
  (hs.level (.peek h)).push rfl

theorem raiseErrorStep (hs : w.Stands .frame) (e : SwitchError) (register : Bool) :
    (w.raiseErrorStep e register).Stands .frame := by
  unfold World.raiseErrorStep
  split
  · exact (tolerant.note (hs.level (.raise e)) _ _).push rfl
  · exact (tolerant.note hs _ _).push rfl

theorem spawnStep (hs : w.Stands c) (steps : List Script.Step) :
    (w.spawnStep steps).Stands .frame := by
  have ht : (w.spawnStep steps).thread.stack =
      [.steps steps, .frame {}, .rootEnd, .exitThread].map Item.task := by
    have hn : (w.push [.join (w.threads.size + 1)]).threads.size = w.threads.size := by
      simp [World.push, World.modifyThread]
    simp only [World.spawnStep, World.thread, Nat.add_sub_cancel]
    rw [Array.getElem?_push, if_pos hn.symm]
    rfl
  have hj : (w.push [.join (w.threads.size + 1)]).Stands c := hs.neutral rfl
  refine ⟨?_, by rw [ht]; rfl, fun i => ?_, hs.saved⟩
  · constructor <;> simp [World.spawnStep, World.push, World.modifyThread]
  · simp only [World.stackAt, World.spawnStep, Array.getElem?_push]
    split
    · exact ⟨.frame, rfl⟩
    · exact hj.everywhere i

end Stands

end World

end Switchyard
