import Switchyard.Proofs.Effect.Steps

/-!
# Effects of steps on objects, payloads and frames
-/

namespace Switchyard

open World

variable {L : Licence} {w w' : World} {hand hand' : List Token}

namespace Effect

theorem offers_of_last {r : Ref} (h : .object r ∈ w.frame.last.tokens) :
    w.Offers hand r := by
  refine .frame ?_
  simp only [Frame.tokens, List.mem_append]
  exact .inr h

theorem hubGreenletStep (hw : w.Seated) (name as_ : String) (hub : Option String)
    {pick : Hub → Ref} (hp : pick = Hub.main ∨ pick = Hub.current) :
    Effect L [] w [] (w.hubGreenletStep name as_ hub pick) := by
  unfold World.hubGreenletStep World.hubStep
  split
  · rename_i e w₁ hh
    exact (hubFor_error hh).note _ _
  · rename_i h w₁ hh
    have hr := reaches_of_hubFor hw hh
    have ho : w₁.Offers [] (pick (w₁.hub h)) := by
      rcases hp with rfl | rfl
      · exact .main hr rfl
      · exact .current hr rfl
    rcases hb : (w₁.retain (pick (w₁.hub h))).bindHandle as_ (pick (w₁.hub h)) with ⟨old, w₂⟩
    simp only [hb]
    exact (((hubFor hh).trans (.retain _ ho)).trans (bindHandle hb)).after
      (all_isPlain_bindHandle hb) (fun k => by simp) _ _

theorem hubNote (name : String) (hub : Option String) (d : HubId → World → Datum) :
    Effect L hand w hand (w.hubStep name hub fun h w => w.note name [d h w]) := by
  unfold World.hubStep
  split
  · rename_i e w₁ hh
    exact (hubFor_error hh).note _ _
  · rename_i h w₁ hh
    exact (hubFor hh).note _ _

theorem collectStep (hw : w.Seated) (hub : Option String) :
    Effect L [] w [] (w.collectStep hub) := by
  unfold World.collectStep World.hubStep
  split
  · rename_i e w₁ hh
    exact (hubFor_error hh).note _ _
  · rename_i h w₁ hh
    have hr : w₁.Reaches h := reaches_of_hubFor hw hh
    exact ((hubFor hh).trans (.holdHub h hr)).trans (.collect "collect" .ok hr)

theorem hasHubStep : Effect L hand w hand w.hasHubStep := (quiet .touchHome).note _ _

theorem lockStep : Effect L hand w hand w.lockStep := refl.note _ _

theorem pendingTakeStep (hl : L.clears) : Effect L [] w [] w.pendingTakeStep := by
  unfold World.pendingTakeStep
  split
  · rename_i w₁ hp
    exact (takePending hl hp).note _ _
  · rename_i r w₁ hp
    exact (takePending hl hp).after rfl (fun k => by simp [Task.tokens]) _ _

theorem pendingClearStep (hl : L.clears) : Effect L [] w [] w.pendingClearStep := by
  unfold World.pendingClearStep
  rcases hp : w.takePending with ⟨o, w₁⟩
  exact (takePending hl hp).after (Task.all_isPlain_toList_drop o) (fun k => by simp) _ _

private theorem insertOut (out : String) (o : Obj) :
    Effect L (o.tokens ++ hand) w (Obj.tokens (w.outs.find? out).join ++ hand)
      { w with outs := w.outs.insert out o } := by
  rcases hb : w.bindOut out o with ⟨ts, w₁⟩
  have e : Effect L (o.tokens ++ hand) w (Task.tokensOf ts ++ hand) w₁ := bindOut hb
  obtain ⟨rfl, rfl⟩ := Prod.mk.inj hb
  simpa using e

private theorem outs_takePending {o : Option Ref} (h : w.takePending = (o, w')) :
    w'.outs = w.outs := by
  unfold World.takePending at h
  have hq := (Quiet.touchPending (w := w)).outs
  simp only at h
  split at h
  · obtain ⟨-, rfl⟩ := Prod.mk.inj h
    exact hq
  · obtain ⟨-, rfl⟩ := Prod.mk.inj h
    exact hq

theorem pendingFetchStep (hl : L.clears) (out : String) :
    Effect L [] w [] (w.pendingFetchStep out) := by
  unfold World.pendingFetchStep
  split
  · rename_i w₁ hp
    refine .note ((takePending hl hp).trans (.tables w₁.handles w₁.objects _ fun k => ?_)) _ _
    have := Table.count_tokens_insert Obj.tokens w₁.outs out (w.outs.find? out).join k
    rw [getD_map_tokens, outs_takePending hp] at this
    simp only [tableTokens, outs_takePending hp, List.count_append, Obj.tokens_none,
      List.count_nil] at this ⊢
    omega
  · rename_i r w₁ hp
    rcases hb : w₁.bindOut out (some r) with ⟨old, w₂⟩
    exact ((takePending hl hp).trans (bindOut hb)).after (all_isPlain_bindOut hb)
      (fun k => by simp) _ _

theorem objectStep (hw : w.Seated) (as_ : String) (v : Script.ValueSpec) :
    Effect L [] w [] (w.objectStep as_ v) := by
  unfold World.objectStep
  rcases he : w.eval w.frame.last v with ⟨o, w₁⟩
  rcases hb : w₁.bindObject as_ o with ⟨old, w₂⟩
  simp only [hb]
  exact ((eval hw (fun r => offers_of_last) he).trans (bindObject hb)).after
    (all_isPlain_bindObject hb) (fun k => by simp) _ _

theorem offers_of_object {name : String} {r : Ref} (h : w.objects.find? name = some (some r)) :
    w.Offers hand r := by
  refine .table ?_
  simp only [tableTokens, List.mem_append]
  exact .inl (.inl (.inr (Table.mem_tokens_of_find? _ h (by simp))))

theorem objectCopyStep (name o as_ : String) : Effect L [] w [] (w.objectCopyStep name o as_) := by
  unfold World.objectCopyStep
  split
  · exact refl.note _ _
  · rename_i x hx
    rcases hb : (w.retainObj x).bindObject as_ x with ⟨old, w₁⟩
    have e : Effect L [] w (x.tokens ++ []) (w.retainObj x) :=
      retainObj fun r hr => offers_of_object (hx.trans (by rw [hr]))
    exact (e.trans (bindObject hb)).after (all_isPlain_bindObject hb) (fun k => by simp) _ _

theorem objectDropStep (o : String) : Effect L [] w [] (w.objectDropStep o) := by
  unfold World.objectDropStep
  split
  · rename_i w₁ ht
    exact (takeObject ht).note _ _
  · rename_i x w₁ ht
    exact (takeObject ht).after (Task.all_isPlain_toList_drop x) (fun k => by simp) _ _

theorem objectHoldStep (hw : w.Seated) (hf : L.Frames w) (o : String) :
    Effect L [] w [] (w.objectHoldStep o) := by
  unfold World.objectHoldStep
  split
  · rename_i w₁ ht
    exact (takeObject ht).note _ _
  · rename_i x w₁ ht
    have e : Effect L [] w (Obj.tokens x ++ []) w₁ := takeObject ht
    exact (e.trans (pushLocal (e.frames hw hf) (.object x))).note _ _

theorem objectInfoStep (o : String) : Effect L hand w hand (w.objectInfoStep o) := by
  unfold World.objectInfoStep
  split <;> exact refl.note _ _

theorem objectEqStep (o b : String) : Effect L hand w hand (w.objectEqStep o b) := by
  unfold World.objectEqStep
  split <;> exact refl.note _ _

theorem viewObject (o : Obj) (k : Kind) (fits : Bool) {d : Datum}
    (h : w.viewObject o k fits = (d, w')) : Effect L hand w hand w' := by
  unfold World.viewObject at h
  split at h
  · obtain ⟨-, rfl⟩ := Prod.mk.inj h
    exact refl
  · obtain ⟨-, rfl⟩ := Prod.mk.inj h
    exact raise _

theorem objectGetStep (o : String) (kind : Option Kind) (view : View) :
    Effect L hand w hand (w.objectGetStep o kind view) := by
  unfold World.objectGetStep
  split
  · exact refl.note _ _
  · exact refl.note _ _
  · split
    · split
      exact (viewObject _ _ _ ‹_›).note _ _
    · split
      exact (viewObject _ _ _ ‹_›).note _ _
    · exact refl.note _ _
    · exact refl.note _ _
    · exact refl.note _ _

theorem objectIntoStep (o : String) (kind : Option Kind) (family : Bool) :
    Effect L [] w [] (w.objectIntoStep o kind family) := by
  unfold World.objectIntoStep
  split
  · exact refl.note _ _
  · exact refl.note _ _
  · rename_i x k hx
    generalize hb : (if family = true then w.inFamily x k else w.isKind x k) = b
    cases b with
    | true => exact refl.note _ _
    | false =>
      have ht : w.takeObject o = (some x, { w with objects := w.objects.erase o }) := by
        simp [World.takeObject, hx]
      exact ((takeObject ht).trans (raise _)).after (Task.all_isPlain_toList_drop x)
        (fun k => by simp) _ _

theorem outPutStep (o out : String) : Effect L [] w [] (w.outPutStep o out) := by
  unfold World.outPutStep
  split
  · rename_i w₁ ht
    exact (takeObject ht).note _ _
  · rename_i x w₁ ht
    rcases hb : w₁.bindOut out x with ⟨old, w₂⟩
    exact ((takeObject ht).trans (bindOut hb)).after (all_isPlain_bindOut hb)
      (fun k => by simp) _ _

theorem outTakeStep (out as_ : String) : Effect L [] w [] (w.outTakeStep out as_) := by
  unfold World.outTakeStep
  split
  · exact refl.note _ _
  · rename_i r hr
    have e : Effect L [] w (Obj.tokens (some r) ++ []) { w with outs := w.outs.insert out none } :=
      hr ▸ insertOut out none
    rcases hb : { w with outs := w.outs.insert out none }.bindObject as_ (some r) with ⟨old, w₁⟩
    simp only [hb]
    exact (e.trans (bindObject hb)).after (all_isPlain_bindObject hb) (fun k => by simp) _ _

theorem outInfoStep (out : String) : Effect L hand w hand (w.outInfoStep out) := refl.note _ _

theorem outDropStep (out : String) : Effect L [] w [] (w.outDropStep out) := by
  unfold World.outDropStep
  split
  · exact refl.note _ _
  · rename_i x hx
    have e : Effect L [] w x.tokens { w with outs := w.outs.erase out } := by
      refine .tables w.handles w.objects _ fun k => ?_
      have := Table.count_tokens_erase Obj.tokens w.outs out k
      simp only [hx, Option.map_some, Option.getD_some, tableTokens, List.count_append] at this ⊢
      simp
      omega
    exact e.after (Task.all_isPlain_toList_drop x) (fun k => by simp) _ _

end Effect

end Switchyard
