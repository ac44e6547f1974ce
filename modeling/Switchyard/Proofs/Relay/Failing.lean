import Switchyard.Proofs.Relay.Tasks

/-!
# Errors on snapshots

A failure is registered where it arrives and leaves what waits for an answer, and the frame around
it, as an error. An error or a panic that gets to the entry of a fiber is the result of the fiber.
-/

namespace Switchyard

def PanicMode.panic (message : String) : PanicMode → Panic
  | .text => .text message
  | .opaqueValue => .opaqueValue

namespace Script

/-- The step leaves an event and nothing else. -/
def Step.looks : Step → Bool
  | .info _ | .refs _ | .current | .stats _ | .counts _ | .hasHub | .lock | .pending | .argsInfo
  | .note _ | .unknown _ => true
  | _ => false

/-- Steps that end with an error or a panic, for which the failure stands. Until then they look. -/
inductive FailsWith : List Step → Failure → Prop
  | raise (f : Failure) (rest : List Step) : FailsWith (.raise f :: rest) f
  | raiseError (e : SwitchError) (register : Bool) (rest : List Step) :
      FailsWith (.raiseError e register :: rest) (.ofError e)
  | panic (message : String) (mode : PanicMode) (rest : List Step) :
      FailsWith (.panic message mode :: rest) (.ofPanic (mode.panic message))
  | look {st : Step} {rest : List Step} {f : Failure} (hl : st.looks = true)
      (h : FailsWith rest f) : FailsWith (st :: rest) f

theorem FailsWith.length_pos {l : List Step} {f : Failure} (h : FailsWith l f) : 0 < l.length := by
  cases h <;> exact Nat.succ_pos _

end Script

namespace Snapshot

/-- A failure is kept as the first one that is pending. -/
def register (f : Failure) (s : Snapshot) : Snapshot :=
  { s with
    object := match s.pending with
      | .vacant => Function.update s.object s.size (some ⟨1, .failure f⟩)
      | _ => s.object
    size := match s.pending with
      | .vacant => s.size + 1
      | _ => s.size
    pending := match s.pending with
      | .vacant => .full s.size
      | p => p }

/-- What arrives is an answer to a switch. -/
def receive (p : Payload) (s : Snapshot) : Snapshot :=
  match p with
  | .ok a =>
    match s.pending with
    | .full r => (s.push [.drop r, .answer (.ok a)]).setPending .vacant
    | _ => s.push [.answer (.ok a)]
  | .error f => (s.push [.answer (.error (.propagated f))]).register f

theorem hub_receive (p : Payload) (s : Snapshot) : (s.receive p).hub = s.hub := by
  unfold receive
  split
  · split <;> rfl
  · rfl

end Snapshot

namespace World

variable {K : Site} {w : World} {s s' : Snapshot} {r : Ref}
  {o : Object} {below : List (Item Task)} {rest : List Script.Step} {n c : Nat} {g : Greenlet}
  {f : Failure} {e : SwitchError} {a : Args Obj} {outcome : Except SwitchError (Args Obj)}
  {x : Fiber Task} {i : FiberId} {fr : Frame} {b : String} {p : Panic}

namespace Depicts

theorem registerFailure (h : Depicts K w s) (f : Failure) :
    Depicts K (w.registerFailure f) (s.register f) := by
  have ht : Depicts K w.touchPending s := h.mute .touchPending
  unfold World.registerFailure
  simp only [ht.pending]
  cases hp : s.pending with
  | vacant =>
    have hs : s.register f = (s.alloc (.failure f)).setPending (.full s.size) := by
      unfold Snapshot.register
      simp only [hp]
      rfl
    obtain ⟨hr, ha⟩ := ht.alloc (.failure f)
    rw [hs, hr]
    exact ha.setPending _
  | full r =>
    have hs : s.register f = s := by
      unfold Snapshot.register
      simp only [hp]
      rw [← hp]
    rw [hs]
    exact ht
  | gone =>
    have hs : s.register f = s := by
      unfold Snapshot.register
      simp only [hp]
      rw [← hp]
    rw [hs]
    exact ht

theorem deliver (h : Depicts K w s) (q : Payload) : Depicts K (w.deliver q) (s.receive q) := by
  cases q with
  | error f => exact (h.registerFailure f).push [.answer (.error (.propagated f))]
  | ok a =>
    have ht : Depicts K w.touchPending s := h.mute .touchPending
    unfold World.deliver World.takePending Snapshot.receive
    simp only [ht.pending]
    cases s.pending with
    | vacant => exact ht.push [.answer (.ok a)]
    | full r => exact (ht.setPending .vacant).push [.drop r, .answer (.ok a)]
    | gone => exact ht.push [.answer (.ok a)]

theorem fail (h : Depicts K w s) (p : Panic) : Depicts K (w.fail p) (s.push [.fail p]) :=
  (h.push [.fail p]).mute (.panics (· + 1))

theorem note (h : Depicts K w s) (name : String) (ds : List Datum) :
    Depicts K (w.note name ds) s := h.mute (.event name _)

theorem peek_snd (h : Depicts K w s) (hK : K.home = .full K.hub) (name : String) :
    Depicts K (w.peek name).2 s := by
  obtain ⟨w₁, he, h₁⟩ := h.homeHub hK
  unfold World.peek
  split
  · rw [he]
    dsimp only
    split
    · exact h₁
    · split <;> exact h₁
  · exact h

theorem lookStep (h : Depicts K w s) (hK : K.home = .full K.hub) (name handle : String)
    (look : Ref → World → Datum) : Depicts K (w.lookStep name handle look) s := by
  have hp := h.peek_snd hK handle
  unfold World.lookStep
  split
  · rename_i he
    rw [he] at hp
    exact hp.note ..
  · rename_i he
    rw [he] at hp
    exact hp.note ..

theorem hubStep (h : Depicts K w s) (hK : K.home = .full K.hub) (name : String)
    (hub : Option String) {run : HubId → World → World}
    (hr : ∀ k w', Depicts K w' s → Depicts K (run k w') s) :
    Depicts K (w.hubStep name hub run) s := by
  obtain ⟨w₁, he, h₁⟩ := h.homeHub hK
  unfold World.hubStep World.hubFor
  split
  · rename_i he'
    split at he'
    · cases he'
    · rw [he] at he'
      cases he'
  · rename_i he'
    split at he'
    · cases he'
      exact hr _ _ h
    · rw [he] at he'
      cases he'
      exact hr _ _ h₁

theorem look (h : Depicts K w s) (hK : K.home = .full K.hub) {st : Script.Step}
    (hl : st.looks = true) : Depicts K (w.runStep st) s := by
  cases st with
  | info name => exact h.lookStep hK ..
  | refs name => exact h.lookStep hK ..
  | current =>
    obtain ⟨w₁, he, h₁⟩ := h.homeHub hK
    change Depicts K w.currentStep s
    unfold World.currentStep
    rw [he]
    exact h₁.note ..
  | stats hub => exact h.hubStep hK _ _ fun _ _ h => h.note ..
  | counts hub => exact h.hubStep hK _ _ fun _ _ h => h.note ..
  | hasHub => exact (h.mute .touchHome).note ..
  | lock => exact h.note ..
  | pending => exact (h.mute .touchPending).note ..
  | argsInfo => exact h.note ..
  | note d => exact h.note ..
  | unknown name => exact h.note ..
  | _ => cases hl

end Depicts

namespace Takes

theorem deliver {q : Payload} (hs : s.stack = .task (.deliver q) :: below) :
    Takes K 1 s ((s.setStack below).receive q) :=
  task hs rfl (by rw [Snapshot.hub_receive]; exact .refl _) fun _ h => h.deliver q

theorem resumed {q : Payload} (hs : s.stack = .task (.resumed K.hub) :: below)
    (ho : s.object s.hub.current = some ⟨c, .greenlet g⟩) (hi : g.inbox = some q) :
    Takes K 1 s (((s.setStack below).setObject s.hub.current
      ⟨c, .greenlet { g with inbox := none }⟩).receive q) := by
  refine task hs rfl (by rw [Snapshot.hub_receive]; exact .refl _) fun w h => ?_
  have hg : w.greenlet s.hub.current = g := h.greenlet ho
  have hw : w.runTask (.resumed K.hub) = (w.modifyGreenlet s.hub.current fun g =>
      { g with inbox := none }).deliver q := by
    have hh : w.hub K.hub = s.hub := h.hub
    change w.resumed K.hub = _
    unfold World.resumed
    simp only [hh, hg, hi]
    rfl
  rw [hw]
  exact (h.modifyGreenlet ho _).deliver q

theorem signal {sig t : Task} {run : Task → World → World}
    (hs : s.stack = .task sig :: .task t :: below) (hd : sig.isPrompt = true)
    (hsig : ∀ w : World, w.runTask sig = w.signal run)
    (hg : s.hub.stats.Grows s'.hub.stats)
    (hr : ∀ w, Depicts K w (s.setStack below) → Depicts K (run t w) s') : Takes K 1 s s' := by
  refine task hs hd hg fun w h => ?_
  have hstk : w.thread.stack = .task t :: below := h.stack
  rw [hsig, World.signal, hstk]
  exact hr _ (h.setStack below)

private theorem pass {sig t : Task} {run : Task → World → World}
    (hs : s.stack = .task sig :: .task t :: below) (hd : sig.isPrompt = true)
    (hsig : ∀ w : World, w.runTask sig = w.signal run)
    (ht : ∀ w : World, run t w = w.pass t sig) (hc : t.cleanup = []) :
    Takes K 1 s (s.setStack (.task sig :: below)) :=
  signal hs hd hsig (.refl _) fun w h => by
    rw [ht, World.pass, hc]
    exact h.push _

theorem answerPastHub (hs : s.stack = .task (.answer outcome) :: .task (.leaveHub K.hub) :: below)
    (hh : 2 ≤ s.hub.holders) :
    Takes K 2 s ((s.setStack (.task (.answer outcome) :: below)).setHub
      { s.hub with holders := s.hub.holders - 1 }) := by
  have h₁ : Takes K 1 s (s.setStack (.task (.leaveHub K.hub) :: .task (.answer outcome) :: below)) :=
    signal hs rfl (fun _ => rfl) (.refl _) fun w h => h.push [.leaveHub K.hub, .answer outcome]
  refine h₁.trans (task rfl rfl (.refl _) fun w h => ?_) rfl
  have hl := h.modifyHub fun x => { x with holders := x.holders - 1 }
  have hw : w.runTask (.leaveHub K.hub) =
      w.modifyHub K.hub fun x => { x with holders := x.holders - 1 } := by
    change w.leaveHub K.hub = _
    unfold World.leaveHub
    exact if_pos (hl.hubLives (Nat.sub_pos_of_lt hh))
  rw [hw]
  exact hl

theorem answerError (hs : s.stack = .task (.answer (.error e)) :: .task (.switched name r none) ::
      .task (.steps rest) :: .task (.frame fr) :: below) (hf : fr.propagates = true)
    (ho : s.object r = some o) (hc : 2 ≤ o.count) :
    Takes K 3 s ((s.setStack (.task (.leave (.error e)) :: .task (.steps rest) ::
      .task (.frame fr) :: below)).setObject r { o with count := o.count - 1 }) := by
  let t := s.setStack (.task (.drop r) :: .task (.note name [e.datum]) :: .task (.leave (.error e)) ::
    .task (.steps rest) :: .task (.frame fr) :: below)
  have h₁ : Takes K 1 s t := signal hs rfl (fun _ => rfl) (.refl _) fun w h => by
    have hw : answer (.error e) (.switched name r none) w =
        w.push [.drop r, .note name [e.datum], .leave (.error e)] := by
      have hfr : w.frame = fr := by
        unfold World.frame
        rw [h.stack]
        rfl
      change World.switched name r none (.error e) w = _
      unfold World.switched
      simp only [hfr, hf]
      rfl
    rw [hw]
    exact h.push _
  have h₂ : Takes K 1 t _ := drop rfl ho hc
  exact h₁.trans (h₂.trans (note rfl) rfl) rfl

theorem leaveBody (hs : s.stack = .task (.leave (.error e)) :: .task (.steps rest) ::
      .task (.frame { propagates := true }) :: .task (.bodyEnd (.script b [] [])) :: below) :
    Takes K 3 s (s.setStack (.task (.result (.error (.ofError e))) :: below)) := by
  have h₁ : Takes K 1 s (s.setStack (.task (.leave (.error e)) ::
      .task (.frame { propagates := true }) :: .task (.bodyEnd (.script b [] [])) :: below)) :=
    pass hs rfl (fun _ => rfl) (fun _ => rfl) rfl
  have h₂ : Takes K 1 (s.setStack (.task (.leave (.error e)) ::
      .task (.frame { propagates := true }) :: .task (.bodyEnd (.script b [] [])) :: below))
      (s.setStack (.task (.hand .empty (.error e)) :: .task (.bodyEnd (.script b [] [])) ::
        below)) := signal rfl rfl (fun _ => rfl) (.refl _) fun w h => by
    have hw : World.leave (.error e) (.frame { propagates := true }) w =
        w.push [.hand .empty (.error e)] := by
      have hst : w.thread.stack = .task (.bodyEnd (.script b [] [])) :: below := h.stack
      unfold World.leave
      simp only [hst]
      rfl
    rw [hw]
    exact h.push _
  have h₃ : Takes K 1 (s.setStack (.task (.hand .empty (.error e)) ::
      .task (.bodyEnd (.script b [] [])) :: below)) (s.setStack
        (.task (.result (.error (.ofError e))) :: below)) :=
    signal rfl rfl (fun _ => rfl) (.refl _) fun w h => h.push _
  exact h₁.trans (h₂.trans h₃ rfl) rfl

private theorem failing {t : Task} (hs : s.stack = .task (.fail p) :: .task t :: below)
    (hg : s.hub.stats.Grows s'.hub.stats)
    (hr : ∀ w, Depicts K w (s.setStack below) → Depicts K (failTask p t w) s') :
    Takes K 1 s s' := by
  refine task hs rfl hg fun w h => ?_
  have hstk : w.thread.stack = .task t :: below := h.stack
  have hw : w.runTask (.fail p) = failTask p t (w.setStack below) := by
    change w.fault p = _
    unfold World.fault
    rw [hstk]
  rw [hw]
  exact hr _ (h.setStack below)

private theorem failPast {t : Task} (hs : s.stack = .task (.fail p) :: .task t :: below)
    (ht : ∀ w : World, failTask p t w = w.pass t (.fail p)) (hc : t.cleanup = []) :
    Takes K 1 s (s.setStack (.task (.fail p) :: below)) :=
  failing hs (.refl _) fun w h => by
    rw [ht, World.pass, hc]
    exact h.push _

theorem failBody (hs : s.stack = .task (.fail p) :: .task (.steps rest) ::
      .task (.frame { propagates := true }) :: .task (.bodyEnd (.script b [] [])) :: below) :
    Takes K 3 s (s.setStack (.task (.fail p) :: below)) := by
  have h₁ : Takes K 1 s (s.setStack (.task (.fail p) ::
      .task (.frame { propagates := true }) :: .task (.bodyEnd (.script b [] [])) :: below)) :=
    failPast hs (fun _ => rfl) rfl
  have h₂ : Takes K 1 (s.setStack (.task (.fail p) ::
      .task (.frame { propagates := true }) :: .task (.bodyEnd (.script b [] [])) :: below))
      (s.setStack (.task (.fail p) :: .task (.bodyEnd (.script b [] [])) :: below)) :=
    failPast rfl (fun _ => rfl) rfl
  exact h₁.trans (h₂.trans (failPast rfl (fun _ => rfl) rfl) rfl) rfl

private theorem post {q : Payload} (h : Depicts K w s) (hx : s.fibers[i]? = some x)
    (hc : x.cancelling = false) (hh : 0 < s.hub.holders) (ho : s.hub.outgoing = none) :
    Depicts K (w.postResult K.hub i q) (s.setHub { s.hub with outgoing := some (.result q) }) := by
  have hw : w.postResult K.hub i q = (w.modifyHub K.hub fun x =>
      { x with outgoing := some (.result q) }).push [] := by
    unfold World.postResult
    simp [h.fiberD hx, hc, h.hubLives hh, h.hub, ho, Task.dropOutgoing]
  rw [hw]
  exact (h.modifyHub _).push []

theorem result {q : Payload} (hs : s.stack = .task (.result q) :: .task (.entry K.hub i) :: below)
    (hx : s.fibers[i]? = some x) (hc : x.cancelling = false) (hh : 0 < s.hub.holders)
    (ho : s.hub.outgoing = none) :
    Takes K 1 s ((s.setStack below).setHub { s.hub with outgoing := some (.result q) }) :=
  signal hs rfl (fun _ => rfl) (.refl _) fun _ h => post h hx hc hh ho

theorem failEntry (hs : s.stack = .task (.fail p) :: .task (.entry K.hub i) :: below)
    (hx : s.fibers[i]? = some x) (hc : x.cancelling = false) (hh : 0 < s.hub.holders)
    (ho : s.hub.outgoing = none) :
    Takes K 1 s ((s.setStack below).setHub
      { s.hub with outgoing := some (.result (.error (.ofPanic p))) }) :=
  failing hs (.refl _) fun w h => by
    have hw : failTask p (.entry K.hub i) w = w.calm.postResult K.hub i (.error (.ofPanic p)) := by
      have hf : w.fiberD i = x := h.fiberD hx
      unfold failTask
      simp only [hf, hc, Bool.false_eq_true, if_false]
    rw [hw]
    exact post (h.mute .calm) hx hc hh ho

theorem propagate (hs : s.stack = .task (.answer (.error e)) :: .task (.switched name r none) ::
      .task (.steps rest) :: .task (.frame { propagates := true }) ::
      .task (.bodyEnd (.script b [] [])) :: .task (.entry K.hub i) :: below)
    (ho : s.object r = some o) (hc : 2 ≤ o.count) (hx : s.fibers[i]? = some x)
    (hcan : x.cancelling = false) (hh : 0 < s.hub.holders) (hout : s.hub.outgoing = none) :
    Takes K 7 s (((s.setStack below).setObject r { o with count := o.count - 1 }).setHub
      { s.hub with outgoing := some (.result (.error (.ofError e))) }) :=
  trans (answerError hs rfl ho hc) (trans (leaveBody rfl) (result rfl hx hcan hh hout) rfl) rfl

theorem raise (hs : s.stack = .task (.steps (.raise f :: rest)) :: below) (hf : s.fuel = n + 1) :
    Takes K 1 s { s.setStack (.task (.leave (.error (.propagated f))) :: .task (.steps rest) ::
      below) with fuel := n } :=
  steps hs hf (.refl _) fun _ h => (h.note ..).push [.leave (.error (.propagated f))]

theorem raiseError {register : Bool}
    (hs : s.stack = .task (.steps (.raiseError e register :: rest)) :: below)
    (hf : s.fuel = n + 1) :
    Takes K 1 s { (if register then s.register (.ofError e) else s).setStack
      (.task (.leave (.error e)) :: .task (.steps rest) :: below) with fuel := n } := by
  cases register with
  | true =>
    exact steps hs hf (.refl _) fun _ h =>
      ((h.registerFailure _).note ..).push [.leave (.error e)]
  | false => exact steps hs hf (.refl _) fun _ h => (h.note ..).push [.leave (.error e)]

theorem panic {message : String} {mode : PanicMode}
    (hs : s.stack = .task (.steps (.panic message mode :: rest)) :: below) (hf : s.fuel = n + 1) :
    Takes K 1 s { s.setStack (.task (.fail (mode.panic message)) :: .task (.steps rest) ::
      below) with fuel := n } :=
  steps hs hf (.refl _) fun w h => by
    have hw : w.runStep (.panic message mode) = (w.event "panic" []).fail (mode.panic message) := by
      cases mode <;> rfl
    rw [hw]
    exact (h.mute (.event ..)).fail _

theorem look (hK : K.home = .full K.hub) {st : Script.Step} (hl : st.looks = true)
    (hs : s.stack = .task (.steps (st :: rest)) :: below) (hf : s.fuel = n + 1) :
    Takes K 1 s { s.setStack (.task (.steps rest) :: below) with fuel := n } :=
  steps hs hf (.refl _) fun _ h => h.look hK hl

theorem failsWith (hK : K.home = .full K.hub) {l : List Script.Step} (hl : Script.FailsWith l f)
    (hs : s.stack = .task (.steps l) :: .task (.frame { propagates := true }) ::
      .task (.bodyEnd (.script b [] [])) :: .task (.entry K.hub i) :: below)
    (hf : l.length ≤ s.fuel) (hx : s.fibers[i]? = some x)
    (hcan : x.cancelling = false) (hh : 0 < s.hub.holders) (hout : s.hub.outgoing = none) :
    ∃ n u, (u = s ∨ u = s.register f) ∧ Leads K s { (u.setStack below).setHub
      { s.hub with outgoing := some (.result (.error f)) } with fuel := n } := by
  obtain ⟨n, hn⟩ : ∃ n, s.fuel = n + 1 := Nat.exists_eq_add_one.mpr
    (Nat.lt_of_lt_of_le hl.length_pos hf)
  induction hl generalizing s n with
  | raise f rest =>
    exact ⟨n, s, .inl rfl, (trans (raise hs hn) (trans (leaveBody (e := .propagated f) rfl)
      (result rfl hx hcan hh hout) rfl) rfl).leads⟩
  | raiseError e register rest =>
    have hl := raiseError (K := K) hs hn
    cases register with
    | true =>
      exact ⟨n, _, .inr rfl,
        (trans hl (trans (leaveBody rfl) (result rfl hx hcan hh hout) rfl) rfl).leads⟩
    | false =>
      exact ⟨n, s, .inl rfl,
        (trans hl (trans (leaveBody rfl) (result rfl hx hcan hh hout) rfl) rfl).leads⟩
  | panic message mode rest =>
    exact ⟨n, s, .inl rfl,
      (trans (panic hs hn) (trans (failBody rfl) (failEntry rfl hx hcan hh hout) rfl) rfl).leads⟩
  | @look st rest f hst hrest ih =>
    let t : Snapshot := { s.setStack (.task (.steps rest) :: .task (.frame { propagates := true }) ::
      .task (.bodyEnd (.script b [] [])) :: .task (.entry K.hub i) :: below) with fuel := n }
    have hlen : rest.length ≤ n := by
      rw [List.length_cons, hn] at hf
      exact Nat.le_of_succ_le_succ hf
    obtain ⟨m, hm⟩ : ∃ m, n = m + 1 := Nat.exists_eq_add_one.mpr
      (Nat.lt_of_lt_of_le hrest.length_pos hlen)
    obtain ⟨k, u, hu, hk⟩ := ih (s := t) rfl hlen hx hh hout m hm
    rcases hu with rfl | rfl
    · exact ⟨k, s, .inl rfl, (look hK hst hs hn).leads.trans hk⟩
    · exact ⟨k, s.register f, .inr rfl, (look hK hst hs hn).leads.trans hk⟩

end Takes

end World

end Switchyard
