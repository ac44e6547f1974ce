import Switchyard.Proofs.Effect.Names

/-!
# Effects of steps

Every step of a script but those that work on a thread state behind its back is an effect.
-/

namespace Switchyard

open World

variable {L : Licence} {w w' : World} {hand hand' : List Token}

namespace Effect

theorem callSwitch (hw : w.Seated) (name : String) (target : Ref) (hub : Option String)
    (catches : Option Bool) (p : Payload) :
    Effect L (.object target :: p.tokens) w [] (w.callSwitch name target hub catches p) := by
  unfold World.callSwitch
  split
  · rename_i h w₁ hh
    have hr : w₁.Reaches h := reaches_of_hubFor hw hh
    refine (hubFor hh).trans ((holdHub h hr).trans (.call p hr ?_ rfl ?_))
    · simp [Task.tokens]
    · intro k
      simp [Task.tokens, List.count_cons]
      omega
  · rename_i e w₁ hh
    refine (hubFor_error hh).pushing ?_ fun k => ?_
    · simp [Task.isPlain, Task.all_isPlain_dropPayload]
    · simp [Task.tokens, List.count_cons]

theorem switched (hf : L.Frames w) (name : String) (target : Ref) (catches : Option Bool)
    (outcome : Except SwitchError (Args Obj)) :
    Effect L (.object target :: (Task.answer outcome).tokens) w []
      (w.switched name target catches outcome) := by
  unfold World.switched
  cases outcome with
  | ok a =>
    rcases hs : w.swapLast a with ⟨old, w₁⟩
    have e : Effect L (.object target :: a.tokens) w (old.tokens ++ [.object target]) w₁ := by
      refine .trans (.trade fun k => ?_) (swapLast hf hs)
      simp [List.count_cons]
    simp only [hs]
    refine e.after ?_ (fun k => ?_) _ _
    · simp [Task.isPlain, Task.all_isPlain_dropArgs]
    · simp [Task.tokens, List.count_cons]
  | error e =>
    refine refl.pushing ?_ fun k => ?_
    · simp only [List.all_append, List.all_cons, Task.isPlain]
      split <;> rfl
    · split <;> simp [Task.tokens, Flow.tokens, List.count_cons]

theorem throwStep (hw : w.Seated) (h : String) (f : Failure) (hub : Option String)
    (catches : Option Bool) : Effect L [] w [] (w.throwStep h f hub catches) := by
  unfold World.throwStep
  split
  · rename_i w₁ hh
    exact (handle hw hh).note _ _
  · rename_i r w₁ hh
    have e : Effect L [] w [.object r] w₁ := handle hw hh
    exact e.trans (callSwitch (e.seated hw) "throw" r hub catches (.error f))

theorem createGreenlet_error {h : HubId} {run : RunFn} {p : Option Ref} {e : SwitchError}
    (hc : w.createGreenlet h run p = (.error e, w')) : w' = w.raise e := by
  unfold World.createGreenlet at hc
  simp only at hc
  split at hc
  · obtain ⟨he, rfl⟩ := Prod.mk.inj hc
    cases he; rfl
  · split at hc
    · obtain ⟨he, rfl⟩ := Prod.mk.inj hc
      cases he; rfl
    · cases (Prod.mk.inj hc).1

theorem createStep (hw : w.Seated) (as_ body : String) (caps : List Script.Canary)
    (holds : List String) (parent hub : Option String) :
    Effect L [] w [] (w.createStep as_ body caps holds parent hub) := by
  unfold World.createStep
  rcases ht : w.takeHandles holds with ⟨held, w₁⟩
  have e₁ : Effect L [] w (held.map .object) w₁ := by
    have e : Effect L [] w (held.map .object ++ []) w₁ := takeHandles ht
    simpa using e
  have hw₁ := e₁.seated hw
  rcases hp : w₁.handleIfNamed parent with ⟨p, w₂⟩
  have e₂ : Effect L (held.map .object) w₁ (Obj.tokens p ++ held.map .object) w₂ :=
    handleIfNamed hw₁ hp
  have hw₂ := e₂.seated hw₁
  simp only [hp]
  have refused (e : SwitchError) {v : World} (ev : Effect L [] w (Obj.tokens p ++ held.map .object) v) :
      Effect L [] w [] (v.after (Task.dropRun (.script body caps held) ++ (p.map Task.drop).toList)
        "new" e.datum) := by
    refine ev.after ?_ (fun k => ?_) _ _
    · rw [List.all_append, Task.all_isPlain_dropRun, Task.all_isPlain_toList_drop]; rfl
    · simp [RunFn.tokens, RunFn.held]
      omega
  split
  · rename_i e w₃ hh
    exact refused e ((e₁.trans e₂).trans (hubFor_error hh))
  · rename_i h w₃ hh
    have e₃ := (e₁.trans e₂).trans (hubFor hh)
    split
    · rename_i e w₄ hc
      obtain rfl := createGreenlet_error hc
      exact refused e (e₃.trans (raise e))
    · rename_i r w₄ hc
      have hsole (q : Ref) :
          Token.sole q ∉ RunFn.tokens (.script body caps held) ++ Obj.tokens p := by
        cases p <;> simp [RunFn.tokens]
      have e₄ : Effect L [] w (.object r :: Obj.tokens p) w₄ := by
        refine (e₃.trading fun k => ?_).trans
          (.create (reaches_of_hubFor hw₂ hh) (fun q hq => .hand ?_ (hsole q)) hc)
        · simp [RunFn.tokens, RunFn.held]
          omega
        · subst hq
          simp
      rcases hb : w₄.bindHandle as_ r with ⟨old, w₅⟩
      refine (e₄.trans (bindHandle hb)).after ?_ (fun k => ?_) _ _
      · rw [List.all_append, all_isPlain_bindHandle hb, Task.all_isPlain_toList_drop]; rfl
      · simp

theorem dropStep (h : String) : Effect L [] w [] (w.dropStep h) := by
  unfold World.dropStep
  split
  · rename_i w₁ hh
    exact (takeHandle hh).note _ _
  · rename_i r w₁ hh
    exact (takeHandle hh).after rfl (fun k => by simp [Task.tokens]) _ _

theorem cloneStep (hw : w.Seated) (h as_ : String) : Effect L [] w [] (w.cloneStep h as_) := by
  unfold World.cloneStep
  split
  · rename_i w₁ hh
    exact (handle hw hh).note _ _
  · rename_i r w₁ hh
    rcases hb : w₁.bindHandle as_ r with ⟨old, w₂⟩
    exact ((handle hw hh).trans (bindHandle hb)).after (all_isPlain_bindHandle hb)
      (fun k => by simp) _ _

theorem holdStep (hw : w.Seated) (hf : L.Frames w) (h : String) :
    Effect L [] w [] (w.holdStep h) := by
  unfold World.holdStep
  split
  · rename_i w₁ hh
    exact (takeHandle hh).note _ _
  · rename_i r w₁ hh
    have e : Effect L [] w [.object r] w₁ := takeHandle hh
    exact (e.trans (pushLocal (e.frames hw hf) (.handle r))).note _ _

theorem keepStep (hw : w.Seated) (hf : L.Frames w) (h : String) :
    Effect L [] w [] (w.keepStep h) := by
  unfold World.keepStep
  split
  · rename_i w₁ hh
    exact (handle hw hh).note _ _
  · rename_i r w₁ hh
    have e : Effect L [] w [.object r] w₁ := handle hw hh
    exact (e.trans (pushLocal (e.frames hw hf) (.handle r))).note _ _

theorem popStep (hf : L.Frames w) : Effect L [] w [] w.popStep := by
  unfold World.popStep
  split
  · exact refl.note _ _
  · rename_i l rest hl
    have e : Effect L [] w l.tokens (w.modifyFrame fun f => { f with locals := rest }) := by
      refine .frame _ (fun k => ?_) hf
      simp [Frame.tokens, hl]
      omega
    refine e.after ?_ (fun k => ?_) _ _
    · cases l with
      | object o => exact Task.all_isPlain_toList_drop o
      | _ => rfl
    · cases l with
      | object o =>
        cases o <;> simp [Task.dropLocal, Local.tokens, Task.tokens]
      | _ => simp [Task.dropLocal, Local.tokens, Task.tokens]

theorem setParentStep (hw : w.Seated) (h p : String)
    (hl : ∀ r, (w.peek h).1 = some r → L.links r) :
    Effect L [] w [] (w.setParentStep h p) := by
  unfold World.setParentStep
  split
  · rename_i w₁ hh
    exact (handle hw hh).note _ _
  · rename_i r w₁ hh
    have e₁ : Effect L [] w [.object r] w₁ := handle hw hh
    split
    · rename_i w₂ hp
      exact (e₁.trans (handle (e₁.seated hw) hp)).after rfl (fun k => by simp [Task.tokens]) _ _
    · rename_i q w₂ hp
      have e₂ := e₁.trans (handle (e₁.seated hw) hp)
      split
      · rename_i old w₃ hs
        refine (e₂.trans (.setParent (.hand ?_ ?_) (.hand ?_ ?_) hs
          (hl r (peek_of_handle hh)))).after ?_ (fun k => ?_) _ _
        · simp
        · simp
        · simp
        · simp
        · simp [Task.isPlain, Task.all_isPlain_toList_drop]
        · simp [Task.tokens, Obj.tokens]
      · rename_i e w₃ hs
        have hw₃ : w₃ = w₂.raise e := by
          unfold World.setParent at hs
          split at hs
          · obtain ⟨he, rfl⟩ := Prod.mk.inj hs
            cases he; rfl
          · cases (Prod.mk.inj hs).1
        subst hw₃
        exact (e₂.trans (raise e)).after rfl (fun k => by simp [Task.tokens]) _ _

theorem lookStep (name h : String) (look : Ref → World → Datum) :
    Effect L hand w hand (w.lookStep name h look) := by
  unfold World.lookStep
  split
  · rename_i w₁ hp
    exact (peek hp).note _ _
  · rename_i r w₁ hp
    exact (peek hp).note _ _

theorem eqStep (h b : String) : Effect L hand w hand (w.eqStep h b) := by
  unfold World.eqStep
  split
  · rename_i w₁ hp
    exact (peek hp).note _ _
  · rename_i r w₁ hp
    exact (peek hp).trans (lookStep _ _ _)

theorem ownerStep (h : String) : Effect L hand w hand (w.ownerStep h) := by
  unfold World.ownerStep
  split
  · rename_i w₁ hp
    exact (peek hp).note _ _
  · rename_i r w₁ hp
    have e₁ : Effect L hand w hand w₁ := peek hp
    unfold World.ownerOf
    split
    · rename_i e w₂ ho
      split at ho
      · cases (Prod.mk.inj ho).1
      · obtain ⟨-, rfl⟩ := Prod.mk.inj ho
        exact (e₁.trans (raise _)).note _ _
    · rename_i x w₂ ho
      split at ho
      · obtain ⟨-, rfl⟩ := Prod.mk.inj ho
        exact (e₁.trans (.quiet .touchHome)).note _ _
      · cases (Prod.mk.inj ho).1

theorem debugStep (h : String) (hub : Option String) :
    Effect L hand w hand (w.debugStep h hub) := by
  unfold World.debugStep
  split
  · rename_i w₁ hp
    exact (peek hp).note _ _
  · rename_i r w₁ hp
    exact ((peek hp).trans (.quiet .touchHome)).note _ _

theorem currentStep : Effect L hand w hand w.currentStep := by
  unfold World.currentStep
  split
  · rename_i e w₁ hh
    exact (homeHub_error hh).note _ _
  · rename_i h w₁ hh
    exact (homeHub hh).note _ _

theorem bindStep (at_ : Selector) (as_ : String) (catches : Option Bool) :
    Effect L [] w [] (w.bindStep at_ as_ catches) := by
  have refused (o : Obj) : Effect L [] w [] (bindStep.refused catches o w) := by
    unfold bindStep.refused
    refine ((raise _).note _ _).pushing ?_ fun k => ?_
    · split <;> rfl
    · split <;> simp [Task.tokens, Flow.tokens]
  unfold World.bindStep
  split
  · exact refl.note _ _
  · rename_i o ho
    split
    · rename_i r
      split
      · rcases hb : (w.retain r).bindHandle as_ r with ⟨old, w₁⟩
        have hr : Effect L [] w [.object r] (w.retain r) := by
          refine .retain r (.frame ?_)
          simp only [Frame.tokens, List.mem_append]
          exact .inr (mem_tokens_of_select ho)
        exact (hr.trans (bindHandle hb)).after (all_isPlain_bindHandle hb) (fun k => by simp) _ _
      · exact refused _
    · exact refused _

end Effect

end Switchyard
