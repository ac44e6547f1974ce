import Switchyard.Proofs.Effect.Basic

/-!
# Effects of look-ups

The pending failure, the thread's own hub, names, and the values that a script writes.
-/

namespace Switchyard

open World

variable {L : Licence} {w w' w₀ : World} {hand hand' hand₀ : List Token}

namespace World

end World

theorem getD_map_tokens (o : Option Obj) :
    (o.map Obj.tokens).getD [] = Obj.tokens o.join := by
  cases o <;> rfl

private theorem getD_map_tokens_some (o : Option Ref) :
    (o.map fun r => Obj.tokens (some r)).getD [] = Obj.tokens o := by
  cases o <;> rfl

namespace Effect

theorem registerFailure (f : Failure) : Effect L hand w hand (w.registerFailure f) := by
  unfold World.registerFailure
  have hq : Effect L hand w hand w.touchPending := .quiet .touchPending
  cases hp : w.touchPending.thread.pending with
  | vacant =>
    simp only [hp]
    exact hq.trans (.register f hp)
  | full r => simpa only [hp] using hq
  | gone => simpa only [hp] using hq

theorem raise (e : SwitchError) : Effect L hand w hand (w.raise e) := registerFailure _

theorem refuse (e : SwitchError) : Effect L hand w hand (w.refuse e) :=
  (raise e).pushing rfl fun k => by simp [Task.tokens]

theorem takePending (hl : L.clears) {o : Option Ref} (h : w.takePending = (o, w')) :
    Effect L hand w (Obj.tokens o ++ hand) w' := by
  unfold World.takePending at h
  have hq : Effect L hand w hand w.touchPending := .quiet .touchPending
  cases hp : w.touchPending.thread.pending with
  | full r =>
    simp only [hp, Prod.mk.injEq] at h
    obtain ⟨rfl, rfl⟩ := h
    exact hq.trans (.take hp hl)
  | vacant =>
    simp only [hp, Prod.mk.injEq] at h
    obtain ⟨rfl, rfl⟩ := h
    exact hq
  | gone =>
    simp only [hp, Prod.mk.injEq] at h
    obtain ⟨rfl, rfl⟩ := h
    exact hq

theorem deliver (p : Payload) (hl : ∀ a, p = .ok a → L.clears) :
    Effect L (p.tokens ++ hand) w hand (w.deliver p) := by
  unfold World.deliver
  cases p with
  | ok a =>
    rcases ho : w.takePending with ⟨o, w'⟩
    refine (takePending (hl a rfl) ho).pushing
      (by simp [Task.isPlain, Task.all_isPlain_toList_drop]) fun k => ?_
    simp [Task.tokens, Payload.tokens]
    omega
  | error f => exact refuse _

theorem homeHub_error {e : SwitchError} (h : w.homeHub = (.error e, w')) :
    Effect L hand w hand w' := by
  unfold World.homeHub at h
  have hq : Effect L hand w hand w.touchHome := .quiet .touchHome
  cases hp : w.touchHome.thread.home with
  | full x => simp [hp] at h
  | vacant => simp [hp] at h
  | gone =>
    simp only [hp, Prod.mk.injEq] at h
    obtain ⟨-, rfl⟩ := h
    exact hq.trans (raise _)

theorem homeHub {h : HubId} (hh : w.homeHub = (.ok h, w')) : Effect L hand w hand w' := by
  unfold World.homeHub at hh
  have hq : Effect L hand w hand w.touchHome := .quiet .touchHome
  cases hp : w.touchHome.thread.home with
  | full x =>
    simp only [hp, Prod.mk.injEq] at hh
    obtain ⟨-, rfl⟩ := hh
    exact hq
  | vacant =>
    simp only [hp, Prod.mk.injEq] at hh
    obtain ⟨-, rfl⟩ := hh
    exact hq.trans (makeHome hp)
  | gone => simp [hp] at hh

theorem thread_of_homeHub (hw : w.Seated) {h : HubId} (hh : w.homeHub = (.ok h, w')) :
    w'.thread.home = .full h := by
  unfold World.homeHub at hh
  have hs : w.touchHome.Seated := Quiet.touchHome.seated hw
  cases hp : w.touchHome.thread.home with
  | full x =>
    simp only [hp, Prod.mk.injEq, Except.ok.injEq] at hh
    obtain ⟨rfl, rfl⟩ := hh
    exact hp
  | vacant =>
    simp only [hp, Prod.mk.injEq, Except.ok.injEq] at hh
    obtain ⟨rfl, rfl⟩ := hh
    rw [thread_modifyThread (seated_createHub.mpr hs)]
  | gone => simp [hp] at hh

theorem hubFor_error {name : Option String} {e : SwitchError}
    (h : w.hubFor name = (.error e, w')) : Effect L hand w hand w' := by
  unfold World.hubFor at h
  split at h
  · simp at h
  · exact homeHub_error h

theorem hubFor {name : Option String} {h : HubId} (hh : w.hubFor name = (.ok h, w')) :
    Effect L hand w hand w' := by
  unfold World.hubFor at hh
  split at hh
  · simp only [Prod.mk.injEq] at hh
    obtain ⟨-, rfl⟩ := hh
    exact refl
  · exact homeHub hh

theorem reaches_of_hubFor (hw : w.Seated) {name : Option String} {h : HubId}
    (hh : w.hubFor name = (.ok h, w')) : w'.Reaches h := by
  unfold World.hubFor at hh
  split at hh
  · rename_i x hx
    simp only [Prod.mk.injEq, Except.ok.injEq] at hh
    obtain ⟨rfl, rfl⟩ := hh
    obtain ⟨n, -, hn⟩ := Option.bind_eq_some_iff.mp hx
    exact .inr ⟨n, hn⟩
  · exact .inl (thread_of_homeHub hw hh)

theorem peek {name : String} {o : Option Ref} (h : w.peek name = (o, w')) :
    Effect L hand w hand w' := by
  unfold World.peek at h
  split at h
  · split at h
    · rename_i he
      simp only [Prod.mk.injEq] at h
      obtain ⟨-, rfl⟩ := h
      exact homeHub_error he
    · rename_i he
      split at h
      · obtain ⟨-, rfl⟩ := Prod.mk.inj h
        exact homeHub he
      · split at h
        · obtain ⟨-, rfl⟩ := Prod.mk.inj h
          exact homeHub he
        · obtain ⟨-, rfl⟩ := Prod.mk.inj h
          exact homeHub he
  · simp only [Prod.mk.injEq] at h
    obtain ⟨-, rfl⟩ := h
    exact refl

theorem offers_of_peek (hw : w.Seated) {name : String} {r : Ref}
    (h : w.peek name = (some r, w')) : w'.Offers hand r := by
  unfold World.peek at h
  split at h
  · split at h
    · simp at h
    · rename_i x v he
      have hx := thread_of_homeHub hw he
      split at h
      · simp only [Prod.mk.injEq, Option.some.injEq] at h
        obtain ⟨rfl, rfl⟩ := h
        exact .main (.inl hx) rfl
      · split at h
        · simp only [Prod.mk.injEq, Option.some.injEq] at h
          obtain ⟨rfl, rfl⟩ := h
          exact .current (.inl hx) rfl
        · simp only [Prod.mk.injEq] at h
          obtain ⟨hr, rfl⟩ := h
          exact .parent (.inl hx) hr
  · simp only [Prod.mk.injEq] at h
    obtain ⟨hf, rfl⟩ := h
    refine .table ?_
    simp only [tableTokens, List.mem_append]
    exact .inl (.inl (.inl (Table.mem_tokens_of_find? _ hf (by simp))))

theorem peek_of_handle {name : String} {r : Ref} (h : w.handle name = (some r, w')) :
    (w.peek name).1 = some r := by
  unfold World.handle at h
  split at h
  · rename_i hp
    obtain ⟨hr, -⟩ := Prod.mk.inj h
    rw [hp, hr]
  · cases (Prod.mk.inj h).1

theorem handle (hw : w.Seated) {name : String} {o : Option Ref} (h : w.handle name = (o, w')) :
    Effect L hand w (Obj.tokens o ++ hand) w' := by
  unfold World.handle at h
  split at h
  · rename_i r v hp
    simp only [Prod.mk.injEq] at h
    obtain ⟨rfl, rfl⟩ := h
    exact (peek hp).trans (.retain r (offers_of_peek hw hp))
  · rename_i v hp
    simp only [Prod.mk.injEq] at h
    obtain ⟨rfl, rfl⟩ := h
    exact peek hp

theorem handleIfNamed (hw : w.Seated) {name : Option String} {o : Option Ref}
    (h : w.handleIfNamed name = (o, w')) : Effect L hand w (Obj.tokens o ++ hand) w' := by
  cases name with
  | none =>
    obtain ⟨rfl, rfl⟩ := Prod.mk.inj h
    exact refl
  | some name => exact handle hw h

theorem bindHandle {name : String} {r : Ref} {ts : List Task}
    (h : w.bindHandle name r = (ts, w')) :
    Effect L (.object r :: hand) w (Task.tokensOf ts ++ hand) w' := by
  unfold World.bindHandle at h
  obtain ⟨rfl, rfl⟩ := Prod.mk.inj h
  refine .tables _ w.objects w.outs fun k => ?_
  have := Table.count_tokens_insert (fun r => Obj.tokens (some r)) w.handles name r k
  rw [getD_map_tokens_some] at this
  simp only [tableTokens, Task.tokensOf_toList_drop, List.count_append, List.count_cons,
    Obj.tokens_some, List.count_nil] at this ⊢
  omega

theorem takeHandle {name : String} {o : Option Ref} (h : w.takeHandle name = (o, w')) :
    Effect L hand w (Obj.tokens o ++ hand) w' := by
  unfold World.takeHandle at h
  obtain ⟨rfl, rfl⟩ := Prod.mk.inj h
  refine .tables _ w.objects w.outs fun k => ?_
  have := Table.count_tokens_erase (fun r => Obj.tokens (some r)) w.handles name k
  rw [getD_map_tokens_some] at this
  simp only [tableTokens, List.count_append] at this ⊢
  omega

theorem takeHandles {names : List String} {rs : List Ref}
    (h : w.takeHandles names = (rs, w')) :
    Effect L hand w (rs.map Token.object ++ hand) w' := by
  induction names generalizing w hand rs with
  | nil =>
    simp only [World.takeHandles, Prod.mk.injEq] at h
    obtain ⟨rfl, rfl⟩ := h
    exact refl
  | cons n ns ih =>
    rcases ht : w.takeHandle n with ⟨o, w₁⟩
    rcases hs : w₁.takeHandles ns with ⟨rs', w₂⟩
    simp only [World.takeHandles, ht, hs, Prod.mk.injEq] at h
    obtain ⟨rfl, rfl⟩ := h
    refine ((takeHandle ht).trans (ih hs)).trading fun k => ?_
    cases o <;> simp [List.count_cons]
    omega

theorem bindObject {name : String} {o : Obj} {ts : List Task}
    (h : w.bindObject name o = (ts, w')) :
    Effect L (o.tokens ++ hand) w (Task.tokensOf ts ++ hand) w' := by
  unfold World.bindObject at h
  obtain ⟨rfl, rfl⟩ := Prod.mk.inj h
  refine .tables w.handles _ w.outs fun k => ?_
  have := Table.count_tokens_insert Obj.tokens w.objects name o k
  rw [getD_map_tokens] at this
  simp only [tableTokens, Task.tokensOf_toList_drop, List.count_append] at this ⊢
  omega

theorem bindOut {name : String} {o : Obj} {ts : List Task} (h : w.bindOut name o = (ts, w')) :
    Effect L (o.tokens ++ hand) w (Task.tokensOf ts ++ hand) w' := by
  unfold World.bindOut at h
  obtain ⟨rfl, rfl⟩ := Prod.mk.inj h
  refine .tables w.handles w.objects _ fun k => ?_
  have := Table.count_tokens_insert Obj.tokens w.outs name o k
  rw [getD_map_tokens] at this
  simp only [tableTokens, Task.tokensOf_toList_drop, List.count_append] at this ⊢
  omega

theorem takeObject {name : String} {o : Option Obj} (h : w.takeObject name = (o, w')) :
    Effect L hand w (Obj.tokens o.join ++ hand) w' := by
  unfold World.takeObject at h
  obtain ⟨rfl, rfl⟩ := Prod.mk.inj h
  refine .tables w.handles _ w.outs fun k => ?_
  have := Table.count_tokens_erase Obj.tokens w.objects name k
  rw [getD_map_tokens] at this
  simp only [tableTokens, List.count_append] at this ⊢
  omega

theorem all_isPlain_bindHandle {name : String} {r : Ref} {ts : List Task}
    (h : w.bindHandle name r = (ts, w')) : ts.all Task.isPlain = true := by
  obtain ⟨rfl, -⟩ := Prod.mk.inj h
  exact Task.all_isPlain_toList_drop _

theorem all_isPlain_bindObject {name : String} {o : Obj} {ts : List Task}
    (h : w.bindObject name o = (ts, w')) : ts.all Task.isPlain = true := by
  obtain ⟨rfl, -⟩ := Prod.mk.inj h
  exact Task.all_isPlain_toList_drop _

theorem all_isPlain_bindOut {name : String} {o : Obj} {ts : List Task}
    (h : w.bindOut name o = (ts, w')) : ts.all Task.isPlain = true := by
  obtain ⟨rfl, -⟩ := Prod.mk.inj h
  exact Task.all_isPlain_toList_drop _

theorem retainObj {o : Obj} (h : ∀ r, o = some r → w.Offers hand r) :
    Effect L hand w (o.tokens ++ hand) (w.retainObj o) := by
  cases o with
  | none => exact refl
  | some r => exact .retain r (h r rfl)

theorem retainAll {os : List Obj}
    (h : ∀ r, .object r ∈ os.flatMap Obj.tokens → .object r ∈ w.frame.tokens) :
    Effect L hand w (os.flatMap Obj.tokens ++ hand) (w.retainAll os) := by
  induction os generalizing w hand with
  | nil => exact refl
  | cons o os ih =>
    have ho : Effect L hand w (o.tokens ++ hand) (w.retainObj o) :=
      retainObj fun r hr => .frame (h r (by simp [hr]))
    refine (ho.trans (ih fun r hr => ?_)).trading fun k => by simp; omega
    have : (w.retainObj o).frame = w.frame := by cases o <;> rfl
    rw [this]
    exact h r (by simp [hr])

theorem mem_tokens_of_select {a : Args Obj} {at_ : Selector} {r : Ref}
    (h : select a at_ = some (some r)) : .object r ∈ a.tokens := by
  have hv : some r ∈ a.values := by
    cases at_ with
    | index i => exact List.mem_append_left _ (List.mem_of_getElem? h)
    | keyword name =>
      obtain ⟨l, l', hl, -⟩ := List.lookup_eq_some_iff.mp h
      exact List.mem_append_right _ (List.mem_map.mpr ⟨(name, some r), by simp [hl], rfl⟩)
  exact List.mem_flatMap.mpr ⟨some r, hv, by simp⟩

private theorem eval_fresh {v : Value} (hv : v.greenlet? = none) {o : Obj}
    (h : (some (w.alloc v).1, (w.alloc v).2) = (o, w')) :
    Effect L hand w (o.tokens ++ hand) w' := by
  obtain ⟨rfl, rfl⟩ := Prod.mk.inj h
  exact .alloc v hv

theorem eval (hw : w.Seated) {received : Args Obj} {v : Script.ValueSpec} {o : Obj}
    (hr : ∀ r, .object r ∈ received.tokens → w.Offers hand r)
    (h : w.eval received v = (o, w')) : Effect L hand w (o.tokens ++ hand) w' := by
  cases v with
  | null =>
    obtain ⟨rfl, rfl⟩ := Prod.mk.inj h
    exact refl
  | greenlet name =>
    rcases hp : w.peek name with ⟨_ | q, w₁⟩
    · simp only [World.eval, hp] at h
      exact (peek hp).trans (eval_fresh rfl h)
    · simp only [World.eval, hp] at h
      obtain ⟨rfl, rfl⟩ := Prod.mk.inj h
      exact (peek hp).trans (.retain q (offers_of_peek hw hp))
  | object name =>
    simp only [World.eval] at h
    split at h
    · rename_i x hx
      obtain ⟨rfl, rfl⟩ := Prod.mk.inj h
      refine retainObj fun r hr => .table ?_
      simp only [tableTokens, List.mem_append]
      exact .inl (.inl (.inr (Table.mem_tokens_of_find? _ hx (by simp [hr]))))
    · exact eval_fresh rfl h
  | received at_ =>
    simp only [World.eval] at h
    split at h
    · rename_i x hx
      obtain ⟨rfl, rfl⟩ := Prod.mk.inj h
      exact retainObj fun r hr' => hr r (mem_tokens_of_select (hx.trans (by rw [hr'])))
    · exact eval_fresh rfl h
  | _ =>
    simp only [World.eval] at h
    exact eval_fresh rfl h

theorem swapLast (hf : L.Frames w) {a old : Args Obj} (h : w.swapLast a = (old, w')) :
    Effect L (a.tokens ++ hand) w (old.tokens ++ hand) w' := by
  unfold World.swapLast at h
  obtain ⟨rfl, rfl⟩ := Prod.mk.inj h
  refine .frame _ (fun k => ?_) hf
  simp [Frame.tokens]
  omega

theorem pushLocal (hf : L.Frames w) (l : Local) :
    Effect L (l.tokens ++ hand) w hand (w.pushLocal l) := by
  refine .frame _ (fun k => ?_) hf
  simp [Frame.tokens]
  omega

end Effect

end Switchyard
