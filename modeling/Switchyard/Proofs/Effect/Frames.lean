import Switchyard.Proofs.Effect.Objects

/-!
# Effects of payloads, frames and endings
-/

namespace Switchyard

open World

variable {L : Licence} {w w' : World} {hand hand' : List Token}

namespace Effect

theorem built (hw : w.Seated) (hf : L.Frames w) (a : Args Obj) (purpose : Purpose) :
    Effect L (a.tokens ++ purpose.tokens) w [] (w.built a purpose) := by
  unfold World.built
  cases purpose with
  | switch target hub catches =>
    refine .trans (.trade fun k => ?_) (callSwitch hw "switch" target hub catches (.ok a))
    simp [Payload.tokens, Purpose.tokens, List.count_cons]
  | replaceLast =>
    rcases hs : w.swapLast a with ⟨old, w₁⟩
    exact (swapLast hf hs).after (Task.all_isPlain_dropArgs old)
      (fun k => by simp [Purpose.tokens]) _ _
  | extendLast =>
    rcases hs : w.swapLast a with ⟨old, w₁⟩
    exact (swapLast hf hs).after (Task.all_isPlain_dropArgs old)
      (fun k => by simp [Purpose.tokens]) _ _
  | ret =>
    exact (refl.note _ _).pushing rfl fun k => by
      simp [Task.tokens, Flow.tokens, Purpose.tokens]

private theorem offers_of_receivedFor {acc : Args Obj} {purpose : Purpose} {r : Ref}
    (hr : .object r ∈ (w.receivedFor acc purpose).tokens) :
    w.Offers (acc.tokens ++ purpose.tokens) r := by
  cases purpose with
  | extendLast =>
    refine .hand (List.mem_append_left _ hr) ?_
    simp [Purpose.tokens, Args.tokens, Obj.tokens]
  | _ => exact offers_of_last hr

theorem build (hw : w.Seated) (hf : L.Frames w) (acc : Args Obj) (positional : List Script.ValueSpec)
    (keywords : List (String × Script.ValueSpec)) (purpose : Purpose) :
    Effect L (acc.tokens ++ purpose.tokens) w [] (w.build acc positional keywords purpose) := by
  unfold World.build
  split
  · rename_i v rest
    rcases he : w.eval (w.receivedFor acc purpose) v with ⟨o, w₁⟩
    simp only [he]
    refine (eval hw (fun r => offers_of_receivedFor) he).pushing rfl fun k => ?_
    simp [Task.tokens]
    omega
  · rename_i name v rest
    rcases he : w.eval (w.receivedFor acc purpose) v with ⟨o, w₁⟩
    simp only [he]
    refine (eval hw (fun r => offers_of_receivedFor) he).pushing ?_ fun k => ?_
    · simp [Task.isPlain, Task.all_isPlain_toList_drop]
    · have := Args.count_tokens_setKeyword acc name o k
      simp [Task.tokens]
      omega
  · exact built hw hf acc purpose

theorem buildArgs (hw : w.Seated) (hf : L.Frames w) (a : Script.ArgsSpec) (purpose : Purpose) :
    Effect L purpose.tokens w [] (w.buildArgs a purpose) := by
  unfold World.buildArgs
  cases a with
  | received =>
    have e : Effect L purpose.tokens w (w.frame.last.tokens ++ purpose.tokens)
        (w.retainAll w.frame.last.values) := by
      refine retainAll fun r hr => ?_
      simp only [Frame.tokens, List.mem_append]
      exact .inr hr
    exact e.trans (built (e.seated hw) (e.frames hw hf) _ _)
  | built positional keywords =>
    exact refl.pushing rfl fun k => by simp [Task.tokens]

theorem switchStep (hw : w.Seated) (hf : L.Frames w) (h : String) (args : Script.ArgsSpec)
    (hub : Option String)
    (catches : Option Bool) : Effect L [] w [] (w.switchStep h args hub catches) := by
  unfold World.switchStep
  split
  · rename_i w₁ hh
    exact (handle hw hh).note _ _
  · rename_i r w₁ hh
    have e : Effect L [] w [.object r] w₁ := handle hw hh
    exact e.trans (buildArgs (e.seated hw) (e.frames hw hf) args (.switch r hub catches))

theorem argsAddStep (hf : L.Frames w) (positional : List Script.ValueSpec)
    (keywords : List (String × Script.ValueSpec)) :
    Effect L [] w [] (w.argsAddStep positional keywords) := by
  unfold World.argsAddStep
  rcases hs : w.swapLast .empty with ⟨last, w₁⟩
  have e : Effect L [] w (last.tokens ++ []) w₁ := swapLast hf hs
  exact e.pushing rfl fun k => by simp [Task.tokens, Purpose.tokens]

theorem argsSplitStep (hf : L.Frames w) : Effect L [] w [] w.argsSplitStep := by
  have e : Effect L [] w (Args.tokens ⟨[], w.frame.last.keywords⟩)
      (w.swapLast ⟨w.frame.last.positional, []⟩).2 := by
    refine .frame _ (fun k => ?_) hf
    simp [Frame.tokens, Args.count_tokens]
    omega
  exact e.after (Task.all_isPlain_dropArgs _) (fun k => by simp) _ _

theorem nestStep (hf : L.Frames w) (how : Nesting) (steps : List Script.Step) :
    Effect L [] w [] (w.nestStep how steps) := by
  unfold World.nestStep
  rcases hs : w.swapLast .empty with ⟨last, w₁⟩
  have e : Effect L [] w (last.tokens ++ []) w₁ := swapLast hf hs
  exact e.pushing rfl fun k => by simp [Task.tokens, Frame.tokens]

theorem deepStep (hf : L.Frames w) (n : Nat) (steps : List Script.Step) :
    Effect L [] w [] (w.deepStep n steps) := by
  cases n <;> exact nestStep hf _ _

theorem ifDeadStep (h : String) (yes no : List Script.Step) :
    Effect L [] w [] (w.ifDeadStep h yes no) := by
  unfold World.ifDeadStep
  rcases hp : w.peek h with ⟨o, w₁⟩
  exact (peek hp).pushing rfl fun k => by simp [Task.tokens]

theorem raiseErrorStep (e : SwitchError) (register : Bool) :
    Effect L [] w [] (w.raiseErrorStep e register) := by
  unfold World.raiseErrorStep
  have er : Effect L [] w [] (if register then w.raise e else w) := by
    split
    · exact raise e
    · exact refl
  exact (er.note _ _).pushing rfl fun k => by simp [Task.tokens, Flow.tokens]

theorem panicStep (message : String) (mode : PanicMode) :
    Effect L [] w [] (w.panicStep message mode) :=
  (quiet (.event _ _)).trans (.fail _)

theorem nestEnd (hf : L.Frames w) (how : Nesting) (last : Args Obj) (flow : Flow) :
    Effect L (last.tokens ++ flow.tokens) w [] (w.nestEnd how last flow) := by
  unfold World.nestEnd
  rcases hs : w.swapLast last with ⟨old, w₁⟩
  have e : Effect L (last.tokens ++ flow.tokens) w (old.tokens ++ flow.tokens) w₁ :=
    swapLast hf hs
  have ev (d : Datum) : Effect L (last.tokens ++ flow.tokens) w (old.tokens ++ flow.tokens)
      (if how = .deep then w₁ else w₁.note (Script.nestingName how) [d]) := by
    split
    · exact e
    · exact e.note _ _
  have leaving {v : World}
      (ev : Effect L (last.tokens ++ flow.tokens) w (old.tokens ++ flow.tokens) v) :
      Effect L (last.tokens ++ flow.tokens) w []
        (v.push (Task.dropArgs old ++ [.leave flow])) := by
    refine ev.pushing ?_ fun k => by simp [Task.tokens]
    rw [List.all_append, Task.all_isPlain_dropArgs]
    rfl
  simp only
  split
  · exact (ev _).pushing (Task.all_isPlain_dropArgs _) fun k => by simp [Flow.tokens]
  · exact leaving (ev _)
  · exact leaving (ev _)
  · exact (ev _).pushing (Task.all_isPlain_dropArgs _) fun k => by simp [Flow.tokens]
  · exact leaving e

theorem dropCanary (c : Script.Canary) : Effect L [] w [] (w.dropCanary c) := by
  unfold World.dropCanary
  have e : Effect L [] w [] (w.event "drop" [.text c.name]) := quiet (.event _ _)
  split
  · exact e
  · exact e.pushing rfl fun k => by simp [Task.tokens, Frame.tokens]

theorem endHandles : Effect L [] w [] w.endHandles :=
  refl.pushing (by simp [Task.isPlain]) fun k => by
    have : Task.tokensOf (w.handles.names.map .endHandle) = [] := by
      simp [Task.tokensOf, Task.tokens]
    simp [this]

theorem endHandle (name : String) : Effect L [] w [] (w.endHandle name) := by
  unfold World.endHandle
  rcases ht : w.takeHandle name with ⟨o, w₁⟩
  exact ((takeHandle ht).trans (quiet (.event _ _))).pushing (Task.all_isPlain_toList_drop o)
    fun k => by simp

theorem endObjects : Effect L [] w [] w.endObjects := by
  unfold World.endObjects
  split
  · exact refl
  · rename_i name o objects hp
    have e : Effect L [] w o.tokens { w with objects } := by
      refine .tables w.handles _ w.outs fun k => ?_
      simp only [tableTokens, Table.tokens_pop Obj.tokens hp, List.count_append, List.count_nil]
      omega
    refine (e.trans (quiet (.event _ _))).pushing ?_ fun k => by simp [Task.tokens]
    rw [List.all_append, Task.all_isPlain_toList_drop]; rfl

theorem endOuts : Effect L [] w [] w.endOuts := by
  unfold World.endOuts
  split
  · exact refl
  · rename_i name o outs hp
    have e : Effect L [] w o.tokens { w with outs } := by
      refine .tables w.handles w.objects _ fun k => ?_
      simp only [tableTokens, Table.tokens_pop Obj.tokens hp, List.count_append, List.count_nil]
      omega
    refine e.pushing ?_ fun k => by simp [Task.tokens]
    rw [List.all_append, Task.all_isPlain_toList_drop]; rfl

theorem endStats : Effect L hand w hand w.endStats := by
  unfold World.endStats
  split
  · exact refl
  · exact quiet (.event _ _)

private theorem print (line : String) : Effect L hand w hand (w.print line) :=
  quiet ⟨rfl, rfl, rfl, rfl, rfl, rfl, rfl, rfl, rfl, rfl, rfl⟩

private theorem numberArgs (n : Int64) {a : Args Obj} (h : w.numberArgs n = (a, w')) :
    Effect L hand w (a.tokens ++ hand) w' := by
  obtain ⟨rfl, rfl⟩ := Prod.mk.inj h
  exact .alloc (.i64 n) rfl

private theorem rallyCall (hw : w.Seated) (target : Ref) (p : Payload) (next : Rally)
    (ht : .object target ∈ next.tokens) (e : Effect L hand' w' (p.tokens ++ next.tokens) w) :
    Effect L hand' w' [] (Rally.call target p next w) := by
  refine e.trans ?_
  unfold Rally.call
  split
  · rename_i h w₁ hh
    have hr : w₁.Reaches h := .inl (thread_of_homeHub hw hh)
    refine (homeHub hh).trans ((holdHub h hr).trans (.call p hr ht rfl fun k => ?_))
    simp [Task.tokens, List.count_cons]
    omega
  · rename_i er w₁ hh
    refine (homeHub_error hh).pushing ?_ fun k => ?_
    · rw [List.all_append, Task.all_isPlain_dropPayload]; rfl
    · simp [Task.tokens]

private theorem createHere {h : HubId} (run : RunFn) {r : Ref} (hh : w.Reaches h)
    (hc : w.createGreenlet h run none = (.ok r, w')) :
    Effect L (run.tokens ++ hand) w (.object r :: hand) w' :=
  .create hh (fun q hq => by cases hq) hc

private theorem rallyBegin (hw : w.Seated) (rounds : Int64) :
    Effect L [] w [] (Rally.begin rounds w) := by
  unfold Rally.begin
  have hp : Effect L [] w [] ((w.print "=== Greenlet Ping-Pong ===").print "") :=
    (print _).trans (print _)
  generalize (w.print "=== Greenlet Ping-Pong ===").print "" = w₁ at hp
  have hw₁ := hp.seated hw
  simp only
  split
  · rename_i e w₂ hh
    exact hp.trans (homeHub_error hh)
  · rename_i h w₂ hh
    have hr : w₂.Reaches h := .inl (thread_of_homeHub hw₁ hh)
    generalize hm : (w₂.hub h).current = main
    have e₂ : Effect L [] w [.object main, .object main] ((w₂.retain main).retain main) :=
      ((hp.trans (homeHub hh)).trans (.retain main (.current hr hm))).trans
        (.retain main (.hand (by simp) (by simp)))
    have eh : Effect L [] w₁ [] w₂ := homeHub hh
    have hw₂ := eh.seated hw₁
    split
    · rename_i e w₃ hc
      obtain rfl := createGreenlet_error hc
      exact (e₂.trans (raise e)).pushing rfl fun k => by simp [Task.tokens, List.count_cons]
    · rename_i pong w₃ hc
      have e₃ : Effect L [] w [.object pong, .object main] w₃ :=
        e₂.trans (createHere (.pong main) hr hc)
      have e₄ : Effect L [] w [.object pong, .object pong, .object main] (w₃.retain pong) :=
        e₃.trans (.retain pong (.hand (by simp) (by simp)))
      split
      · rename_i e w₄ hc'
        obtain rfl := createGreenlet_error hc'
        exact (e₄.trans (raise e)).pushing rfl fun k => by simp [Task.tokens, List.count_cons]
      · rename_i ping w₄ hc'
        have e₅ : Effect L [] w [.object ping, .object pong, .object main] w₄ :=
          e₄.trans (createHere (.ping pong) (.inl ?_) hc')
        · rcases ha : w₄.numberArgs rounds with ⟨a, w₅⟩
          have e₆ := e₅.trans (numberArgs rounds ha)
          refine rallyCall (e₆.seated hw) ping (.ok a) (.relayed main pong ping)
            (by simp [Rally.tokens]) (e₆.trading fun k => ?_)
          simp [Payload.tokens, Rally.tokens, List.count_cons]
          omega
        · have h₃ := home_createGreenlet (w := (w₂.retain main).retain main) hw₂ hc
          have h₂ : w₂.thread.home = .full h := thread_of_homeHub hw₁ hh
          exact h₃.trans h₂

private theorem rallyRelay (hw : w.Seated) (main pong ping : Ref) (a : Args Obj) :
    Effect L ((Rally.relayed main pong ping).tokens ++ a.tokens) w []
      (Rally.relay main pong ping a w) := by
  unfold Rally.relay
  simp only
  split
  · refine rallyCall ?_ pong (.error .exit) (.stopped main pong ping a) (by simp [Rally.tokens])
      (((print _).trans (print _)).trading fun k => ?_)
    · exact hw
    · simp [Payload.tokens, Rally.tokens]
  · refine rallyCall ?_ ping (.ok a) (.relayed main pong ping) (by simp [Rally.tokens])
      ((print _).trading fun k => ?_)
    · exact hw
    · simp [Payload.tokens]
      omega

private theorem rallyFinish (pong : Ref) : Effect L hand w hand (Rally.finish pong w) := by
  unfold Rally.finish
  simp only
  split
  · rename_i e w₁ hh
    exact (print _).trans (homeHub_error hh)
  · rename_i h w₁ hh
    exact ((((print _).trans (homeHub hh)).trans (print _)).trans (print _)).trans (print _)

theorem all_isPlain_drops (r : Rally) : r.drops.all Task.isPlain = true := by
  cases r <;> simp [Rally.drops, Task.isPlain, Task.all_isPlain_dropArgs]

private theorem rallyDrops (r : Rally) (e : Effect L hand' w' r.tokens w) :
    Effect L hand' w' [] (w.push r.drops) :=
  e.pushing (all_isPlain_drops r) fun k => by simp [Task.count_tokensOf_drops]

theorem rallyRun (hw : w.Seated) (r : Rally) : Effect L r.tokens w [] (r.run w) := by
  cases r with
  | start rounds => exact rallyBegin hw rounds
  | hit main args =>
    simp only [Rally.run]
    generalize hn : (w.number? args).getD 0 = n
    rcases ha : (w.write .info ("pong got " ++ toString n.toInt)).numberArgs (n + 1) with ⟨a, w₁⟩
    have e : Effect L (Rally.hit main args).tokens w
        (a.tokens ++ (Rally.hit main args).tokens) w₁ :=
      (quiet (.write _ _)).trans (numberArgs _ ha)
    exact rallyCall (e.seated hw) main (.ok a) (.hitBack main args) (by simp [Rally.tokens]) e
  | serve pong args rounds left ball =>
    simp only [Rally.run]
    split
    · rcases ha : w.numberArgs ball with ⟨a, w₁⟩
      have e : Effect L (Rally.serve pong args rounds left ball).tokens w
          (.object (w₁.alloc (.i64 rounds)).1 ::
            (a.tokens ++ (Rally.serve pong args rounds left ball).tokens))
          (w₁.alloc (.i64 rounds)).2 :=
        (numberArgs _ ha).trans (.alloc _ rfl)
      have hk : a.keyword? "rounds" = none := by
        obtain ⟨rfl, -⟩ := Prod.mk.inj ha
        rfl
      refine e.pushing ?_ fun k => ?_
      · simp [Task.isPlain, Task.all_isPlain_dropArgs]
      · have := Args.count_tokens_setKeyword a "rounds" (some (w₁.alloc (.i64 rounds)).1) k
        simp [hk, Task.tokens, Payload.tokens, Rally.tokens, List.count_cons] at this ⊢
        omega
    · rcases ha : w.numberArgs ball with ⟨a, w₁⟩
      have e : Effect L (Rally.serve pong args rounds left ball).tokens w
          (a.tokens ++ (Rally.serve pong args rounds left ball).tokens) w₁ := numberArgs _ ha
      exact rallyCall (e.seated hw) pong (.ok a) (.served pong args rounds (left - 1) ball)
        (by simp [Rally.tokens]) e
  | _ => exact rallyDrops _ refl

theorem rallyAnswered (hw : w.Seated) (r : Rally) (outcome : Except SwitchError (Args Obj)) :
    Effect L (r.tokens ++ (Task.answer outcome).tokens) w [] (r.answered outcome w) := by
  have drops (r : Rally) (a : Args Obj) :
      Effect L (r.tokens ++ a.tokens) w [] (w.push (Task.dropArgs a ++ r.drops)) := by
    refine refl.pushing ?_ fun k => ?_
    · rw [List.all_append, Task.all_isPlain_dropArgs, all_isPlain_drops]; rfl
    · simp [Task.count_tokensOf_drops]
      omega
  have result (r : Rally) (p : Payload) (hp : p.tokens = []) :
      Effect L (r.tokens ++ []) w [] (w.push (r.drops ++ [.result p])) := by
    refine refl.pushing ?_ fun k => ?_
    · rw [List.all_append, all_isPlain_drops]; rfl
    · simp [Task.count_tokensOf_drops, Task.tokens, hp]
  cases outcome with
  | ok a =>
    cases r with
    | relayed main pong ping => exact rallyRelay hw main pong ping a
    | stopped main pong ping reply =>
      refine (rallyFinish pong).pushing ?_ fun k => ?_
      · rw [List.all_append, Task.all_isPlain_dropArgs, all_isPlain_drops]; rfl
      · simp [Task.count_tokensOf_drops, Task.tokens]
        omega
    | hitBack main args =>
      refine refl.pushing ?_ fun k => ?_
      · simp [Task.isPlain, Task.all_isPlain_dropArgs]
      · simp [Task.tokens, Rally.tokens, List.count_cons]
        omega
    | served pong args rounds left ball =>
      refine refl.pushing ?_ fun k => ?_
      · simp [Task.isPlain, Task.all_isPlain_dropArgs]
      · simp [Task.tokens, Rally.tokens, List.count_cons]
        omega
    | _ => exact drops _ a
  | error e =>
    cases r with
    | hitBack main args => exact result _ _ rfl
    | served pong args rounds left ball => exact result _ _ rfl
    | _ => exact rallyDrops _ (refl.trading fun k => by simp [Task.tokens])

end Effect

end Switchyard
