import Switchyard.Proofs.Relay.Snapshot

/-!
# Tasks on snapshots

What the tasks of a switch do, as long as no reference and no handle is the last one.
-/

namespace Switchyard

/-- The name stands for an entry of the table of handles. -/
def Script.IsPlain (name : String) : Prop := name ≠ "@main" ∧ name ≠ "@cur" ∧ name ≠ "@parent"

/-- The script makes a greenlet and switches to it. -/
def Script.pass (name body : String) (rest : List Script.Step) : List Script.Step :=
  .create name body [] [] none none :: .switch name (.built [] []) none none :: rest

/-- The value owns nothing, and nothing happens at its end. -/
def Value.isInert : Value → Bool
  | .canary _ | .phoenix .. | .greenlet _ => false
  | _ => true

/-- The state of a greenlet that gives way to another one. -/
def RunState.giveWay (s : RunState) : RunState := if s == .running then .suspended else s

theorem RunState.isDead_giveWay (s : RunState) : s.giveWay.isDead = s.isDead := by
  cases s <;> rfl

namespace Snapshot

/-- The greenlet that is made next on the hub `h`, under the current one. -/
def newborn (h : HubId) (run : RunFn) (s : Snapshot) : Greenlet :=
  ⟨s.ids.next.1, s.hub.thread, false, h, .unstarted, some s.hub.current, some run, none, none⟩

def create (h : HubId) (run : RunFn) (o : Object) (s : Snapshot) : Snapshot :=
  { s with
    object := Function.update (Function.update s.object s.hub.current
      (some { o with count := o.count + 1 })) s.size (some ⟨1, .greenlet (s.newborn h run)⟩)
    size := s.size + 1
    hub := { s.hub with nodes := s.size :: s.hub.nodes }
    ids := s.ids.next.2 }

end Snapshot

namespace World

variable {K : Site} {w : World} {s s' : Snapshot} {r : Ref}
  {o : Object} {below : List (Item Task)} {rest : List Script.Step} {n : Nat} {name body : String}

namespace Depicts

theorem homeHub (h : Depicts K w s) (hK : K.home = .full K.hub) :
    ∃ w', w.homeHub = (.ok K.hub, w') ∧ Depicts K w' s := by
  have ht : Depicts K w.touchHome s := h.mute .touchHome
  refine ⟨w.touchHome, ?_, ht⟩
  unfold World.homeHub
  simp only [ht.home, hK]

theorem hubFor (h : Depicts K w s) (hK : K.home = .full K.hub) :
    ∃ w', w.hubFor none = (.ok K.hub, w') ∧ Depicts K w' s :=
  h.homeHub hK

theorem peek (h : Depicts K w s) (hp : Script.IsPlain name) :
    w.peek name = (s.handles.find? name, w) := by
  unfold World.peek
  rw [if_neg (by simpa [Script.IsPlain, not_or, and_assoc] using hp), h.handles]

theorem createGreenlet (h : Depicts K w s) (hc : s.hub.closed = false)
    (ho : s.object s.hub.current = some o) (run : RunFn) :
    ∃ w', w.createGreenlet K.hub run none = (.ok s.size, w') ∧ Depicts K w' (s.create K.hub run o) := by
  obtain ⟨hid, hi⟩ := (h.retain ho).nextId
  obtain ⟨hr, ha⟩ := hi.alloc (.greenlet ⟨s.ids.next.1, s.hub.thread, false, K.hub, .unstarted,
    some s.hub.current, some run, none, none⟩)
  have hm := (ha.modifyHub fun x => { x with nodes := s.size :: x.nodes }).mute
    (.write .trace ("greenlet " ++ s.ids.next.1.text ++ " created on " ++ threadName s.hub.thread))
  refine ⟨_, ?_, hm⟩
  unfold World.createGreenlet
  simp only [h.hub, hc, Bool.false_eq_true, if_false, Option.isSome_none, Bool.false_and,
    Option.getD_none]
  have hid' : (w.retain s.hub.current).nextId.1 = s.ids.next.1 := hid
  have hr' : _ = s.size := hr
  rw [hid', hr']
  rfl

theorem createStep {w₁ : World} (h : Depicts K w₁ s) (he : w.hubFor none = (.ok K.hub, w₁))
    (hc : s.hub.closed = false) (ho : s.object s.hub.current = some o)
    (hn : s.handles.find? name = none) :
    Depicts K (w.createStep name body [] [] none none)
      ({ s.create K.hub (.script body [] []) o with
        handles := s.handles.insert name s.size }.push
          [.note "new" [.nat s.ids.next.1.word.toNat]]) := by
  obtain ⟨w₂, he₂, h₂⟩ := h.createGreenlet hc ho (.script body [] [])
  obtain ⟨hb, h₃⟩ := h₂.bindHandle (r := s.size) hn
  have hg : (w₂.greenlet s.size).id = s.ids.next.1 :=
    congrArg Greenlet.id (h₂.greenlet (Function.update_self ..))
  unfold World.createStep
  simp only [World.takeHandles, World.handleIfNamed, he, he₂, hb, hg]
  exact h₃.push _

end Depicts

namespace Takes

theorem mainSteps {st : Script.Step} (hs : s.stack = .task (.mainSteps (st :: rest)) :: below) :
    Takes K 1 s ((s.setStack below).push [.steps [st], .mainGuard, .mainSteps rest]) :=
  task hs rfl (.refl _) fun _ h => h.push _

theorem mainGuard (hs : s.stack = .task .mainGuard :: below) : Takes K 1 s (s.setStack below) :=
  task hs rfl (.refl _) fun _ h => h

theorem done (hs : s.stack = .task (.steps []) :: below) : Takes K 1 s (s.setStack below) :=
  task hs rfl (.refl _) fun _ h => h

theorem note {result : List Datum} (hs : s.stack = .task (.note name result) :: below) :
    Takes K 1 s (s.setStack below) :=
  task hs rfl (.refl _) fun _ h => h.mute (.event name _)

theorem steps {st : Script.Step} (hs : s.stack = .task (.steps (st :: rest)) :: below)
    (hf : s.fuel = n + 1) (hg : s.hub.stats.Grows s'.hub.stats)
    (hr : ∀ w, Depicts K w { (s.setStack below).push [.steps rest] with fuel := n } →
      Depicts K (w.runStep st) s') : Takes K 1 s s' := by
  refine task hs rfl hg fun w h => ?_
  have hf' : w.fuel = n + 1 := h.fuel.trans hf
  have hn : w.runTask (.steps (st :: rest)) = ({ w with fuel := n }.push [.steps rest]).runStep st := by
    change w.runSteps (st :: rest) = _
    unfold World.runSteps
    simp only [hf']
  rw [hn]
  exact hr _ ((h.setFuel n).push _)

theorem create (hK : K.home = .full K.hub)
    (hs : s.stack = .task (.steps (.create name body [] [] none none :: rest)) :: below)
    (hf : s.fuel = n + 1) (hc : s.hub.closed = false) (ho : s.object s.hub.current = some o)
    (hn : s.handles.find? name = none) :
    Takes K 2 s { s.create K.hub (.script body [] []) o with
      stack := .task (.steps rest) :: below, fuel := n
      handles := s.handles.insert name s.size } := by
  have hstep : Takes K 1 s { (s.create K.hub (.script body [] []) o).setStack
      (.task (.note "new" [.nat s.ids.next.1.word.toNat]) :: .task (.steps rest) :: below) with
        fuel := n, handles := s.handles.insert name s.size } := steps hs hf (.refl _) fun w h => by
    obtain ⟨w₁, he₁, h₁⟩ := h.hubFor hK
    exact h₁.createStep (w := w) (o := o) he₁ hc ho hn
  exact hstep.trans (note rfl) rfl

theorem ask (hK : K.home = .full K.hub)
    (hs : s.stack = .task (.steps (.switch name (.built [] []) none none :: rest)) :: below)
    (hf : s.fuel = n + 1) (hp : Script.IsPlain name) (hn : s.handles.find? name = some r)
    (ho : s.object r = some o) :
    Takes K 2 s { (((s.setStack below).push [.switch K.hub r (.ok .empty), .leaveHub K.hub,
        .switched "switch" r none, .steps rest]).setObject r { o with count := o.count + 1 }).setHub
          { s.hub with holders := s.hub.holders + 1 } with fuel := n } := by
  have hstep : Takes K 1 s { ((s.setStack below).push [.build .empty [] [] (.switch r none none),
      .steps rest]).setObject r { o with count := o.count + 1 } with fuel := n } :=
    steps hs hf (.refl _) fun w h => by
      have hw : w.runStep (.switch name (.built [] []) none none) =
          (w.retain r).push [.build .empty [] [] (.switch r none none)] := by
        change w.switchStep name (.built [] []) none none = _
        unfold World.switchStep World.handle
        have hk : w.peek name = (some r, w) := (h.peek hp).trans (congrArg (·, w) hn)
        rw [hk]
        rfl
      rw [hw]
      exact (h.retain (o := o) ho).push _
  refine hstep.trans (task rfl rfl (.refl _) fun w h => ?_) rfl
  obtain ⟨w₁, he₁, h₁⟩ := h.hubFor hK
  have hw : w.runTask (.build .empty [] [] (.switch r none none)) =
      (w₁.holdHub K.hub).push
        [.switch K.hub r (.ok .empty), .leaveHub K.hub, .switched "switch" r none] := by
    change w.callSwitch "switch" r none none (.ok .empty) = _
    unfold World.callSwitch
    rw [he₁]
  rw [hw]
  exact (h₁.modifyHub _).push _

theorem drop (hs : s.stack = .task (.drop r) :: below) (ho : s.object r = some o)
    (hc : 2 ≤ o.count) :
    Takes K 1 s ((s.setStack below).setObject r { o with count := o.count - 1 }) :=
  task hs rfl (.refl _) fun w h => by
    have hw : w.runTask (.drop r) = w.modifyObject r fun o => { o with count := o.count - 1 } := by
      change w.drop r = _
      unfold World.drop
      rw [show w.object? r = some o from (congrFun h.object r).trans ho]
      exact if_neg (Nat.not_le.mpr hc)
    rw [hw]
    exact h.modifyObject ho _

theorem destroying {m : Lock} (hs : s.stack = .task (.destroy r) :: below)
    (hl : s.lock.ensure? K.thread = some m)
    (hg : s.hub.stats.Grows s'.hub.stats)
    (hr : ∀ w, Depicts K w (s.setStack below) → w.lock.ensure? w.active = some m →
      Depicts K (w.destroy r) s') : Takes K 1 s s' := by
  refine step hs rfl hg fun w h => ?_
  have hstk : w.thread.stack = .task (.destroy r) :: below := h.stack.trans hs
  have hlock : w.lock.ensure? w.active = some m := by
    rw [h.lock, h.active]
    exact hl
  refine ⟨?_, ?_⟩
  · unfold World.isHalted World.canLock
    rw [hstk]
    simp [hlock]
  · have hn : w.next = (w.setStack below).destroy r := by
      unfold World.next
      rw [hstk]
      rfl
    rw [hn]
    exact hr _ (h.setStack below) hlock

theorem destroy {v : Value} {m : Lock} (hs : s.stack = .task (.destroy r) :: below)
    (ho : s.object r = some ⟨n, v⟩) (hv : v.isInert = true) (hl : s.lock.ensure? K.thread = some m) :
    Takes K 1 s (((s.setStack below).setLock m).push [.reclaim r]) :=
  destroying hs hl (.refl _) fun w h hlock => by
    have h₁ := h.setLock m
    have hval : ({ w with lock := m } : World).valueD r = v := by
      rw [World.valueD, h₁.object, show ((s.setStack below).setLock m).object r = _ from ho]
      rfl
    have hw : w.destroy r = ({ w with lock := m } : World).push [.reclaim r] := by
      unfold World.destroy
      simp only [hlock, Option.getD_some, hval]
      cases v <;> first | rfl | cases hv
    rw [hw]
    exact h₁.push _

theorem destroyGreenlet {g : Greenlet} {m : Lock} (hs : s.stack = .task (.destroy r) :: below)
    (ho : s.object r = some ⟨n, .greenlet g⟩) (hl : s.lock.ensure? K.thread = some m) :
    Takes K 1 s ((((s.setStack below).setLock m).setObject r ⟨n, .greenlet { g with
      parent := none, run := none, fiber := none, inbox := none }⟩).push
        (greenletParts g ++ [.reclaim r])) :=
  destroying hs hl (.refl _) fun w h hlock => by
    have h₁ := h.setLock m
    have hval : ({ w with lock := m } : World).valueD r = .greenlet g := by
      rw [World.valueD, h₁.object, show ((s.setStack below).setLock m).object r = _ from ho]
      rfl
    have hw : w.destroy r = (({ w with lock := m } : World).modifyGreenlet r fun g => { g with
        parent := none, run := none, fiber := none, inbox := none }).push
          (greenletParts g ++ [.reclaim r]) := by
      unfold World.destroy
      simp only [hlock, Option.getD_some, hval]
    rw [hw]
    exact (h₁.modifyGreenlet ho _).push _

theorem reclaim (hs : s.stack = .task (.reclaim r) :: below) :
    Takes K 1 s { s.setStack below with
      lock := s.lock.release
      object := Function.update s.object r none } :=
  task hs rfl (.refl _) fun w h => by
    have hw : w.runTask (.reclaim r) = { w.erase r with lock := w.lock.release } := rfl
    rw [hw]
    exact { h with
      lock := by rw [h.lock]; rfl
      object := by
        funext q
        change (w.erase r).object? q = _
        rw [object?_erase, h.object]
        by_cases hq : r = q
        · subst hq
          simp
        · simp [Snapshot.setStack, hq, Ne.symm hq]
      size := (Array.size_modify ..).trans h.size }

theorem dropLast {v : Value} {m : Lock} (hs : s.stack = .task (.drop r) :: below)
    (ho : s.object r = some ⟨n, v⟩) (hn : n ≤ 1) (hv : v.isInert = true)
    (hl : s.lock.ensure? K.thread = some m) (hm : m.release = s.lock) :
    Takes K 3 s { s.setStack below with object := Function.update s.object r none } := by
  let t : Snapshot := (s.setStack (.task (.destroy r) :: below)).setObject r ⟨n - 1, v⟩
  have h₁ : Takes K 1 s t := task hs rfl (.refl _) fun w h => by
    have hw : w.runTask (.drop r) =
        (w.modifyObject r fun o => { o with count := o.count - 1 }).push [.destroy r] := by
      change w.drop r = _
      unfold World.drop
      rw [show w.object? r = some ⟨n, v⟩ from (congrFun h.object r).trans ho]
      refine (if_pos hn).trans ?_
      unfold World.lastDropped
      cases v <;> first | rfl | cases hv
    rw [hw]
    exact (h.modifyObject ho _).push _
  have h₂ : Takes K 1 t { t.setStack (.task (.reclaim r) :: below) with lock := m } :=
    destroy rfl (Function.update_self ..) hv hl
  refine h₁.trans (h₂.trans ((reclaim rfl).ends ?_) rfl) rfl
  simp [t, Snapshot.setStack, Snapshot.setObject, hm]

theorem dropFailure {f : Failure} {m : Lock} (hs : s.stack = .task (.drop r) :: below)
    (ho : s.object r = some ⟨n, .failure f⟩) (hl : s.lock.ensure? K.thread = some m)
    (hm : m.release = s.lock) :
    ∃ o', Takes K 3 s { s.setStack below with object := Function.update s.object r o' } := by
  by_cases hn : 2 ≤ n
  · exact ⟨_, (drop hs ho hn).within (by decide)⟩
  · exact ⟨none, dropLast hs ho (Nat.le_of_lt_succ (Nat.not_le.mp hn)) rfl hl hm⟩

/-- Tasks that drop a handle of a fiber. -/
def Unshares (K : Site) (f : FiberId) (t : Task) : Prop := t = .unshare f ∨ t = .dropPinned ⟨K.thread, f⟩

private theorem Unshares.run {f : FiberId} {t : Task} (ht : Unshares K f t) (ha : w.active = K.thread) :
    w.runTask t = w.takeControl (w.control.unshare f w.isPanicking) := by
  obtain rfl | rfl := ht
  · rfl
  · have hf : (⟨K.thread, f⟩ : Pinned FiberId).get? w.active = some f :=
      Pinned.get?_eq_some_iff.mpr ⟨ha.symm, rfl⟩
    change w.dropPinned ⟨K.thread, f⟩ = _
    unfold World.dropPinned
    rw [hf]
    rfl

private theorem Unshares.isPrompt {f : FiberId} {t : Task} (ht : Unshares K f t) :
    t.isPrompt = true := by
  obtain rfl | rfl := ht <;> rfl

theorem unshare {f : FiberId} {x : Fiber Task} {t : Task} (hs : s.stack = .task t :: below)
    (ht : Unshares K f t) (hf : s.fibers[f]? = some x) (hx : 2 ≤ x.handles) :
    Takes K 1 s ((s.setStack below).setFibers
      (s.fibers.modify f fun x => { x with handles := x.handles - 1 })) :=
  task hs ht.isPrompt (.refl _) fun w h => by
    have hg : (s.fibers.modify f fun x => { x with handles := x.handles - 1 })[f]? =
        some { x with handles := x.handles - 1 } := by
      rw [Array.getElem?_modify, if_pos rfl, hf]
      rfl
    have hu : w.control.unshare f w.isPanicking =
        (⟨below, s.fibers.modify f fun x => { x with handles := x.handles - 1 }, w.lost⟩, false) := by
      rw [h.control]
      refine if_neg ?_
      change ((s.fibers.modify f fun x => { x with handles := x.handles - 1 })[f]?.getD _).handles ≠ 0
      rw [hg]
      exact Nat.sub_ne_zero_of_lt hx
    rw [ht.run h.active, hu]
    exact h.setControl _

theorem unshareLast {f : FiberId} {x : Fiber Task} {t : Task} (hs : s.stack = .task t :: below)
    (ht : Unshares K f t) (hf : s.fibers[f]? = some x) (hx : x.handles = 1) (hp : x.phase = .ended) :
    Takes K 1 s ((s.setStack below).setFibers (s.fibers.modify f fun x =>
      { x with handles := x.handles - 1, cancelling := true, phase := .taken })) :=
  task hs ht.isPrompt (.refl _) fun w h => by
    let l := s.fibers.modify f fun x => { x with handles := x.handles - 1 }
    let l' := l.modify f fun x => { x with cancelling := true }
    have hl : l[f]? = some { x with handles := x.handles - 1 } := by
      rw [Array.getElem?_modify, if_pos rfl, hf]
      rfl
    have hl' : l'[f]? = some { x with handles := x.handles - 1, cancelling := true } := by
      rw [Array.getElem?_modify, if_pos rfl, hl]
      rfl
    have hd : (⟨below, l', w.lost⟩ : Control Task).destroy f w.isPanicking =
        (⟨below, l'.modify f fun x => { x with phase := .taken }, w.lost⟩, false) := by
      unfold Control.destroy Control.fiberD
      simp only [hl', Option.getD_some, hp]
      rfl
    have hu : w.control.unshare f w.isPanicking = (⟨below, s.fibers.modify f fun x =>
        { x with handles := x.handles - 1, cancelling := true, phase := .taken }, w.lost⟩, false) := by
      have hm : (l'.modify f fun x => { x with phase := .taken }) = s.fibers.modify f fun x =>
          { x with handles := x.handles - 1, cancelling := true, phase := .taken } := by
        refine Array.ext_getElem? fun i => ?_
        simp only [l', l, Array.getElem?_modify]
        split
        · cases s.fibers[i]? <;> rfl
        · rfl
      rw [← hm, ← hd, h.control]
      refine if_pos ?_
      change (l[f]?.getD _).handles = 0
      rw [hl]
      change x.handles - 1 = 0
      rw [hx]
    rw [ht.run h.active, hu]
    exact h.setControl _

private theorem hub_drained {x : Hub} (hd : x.deferred = []) (hf : x.foreign = []) :
    { x with
      deferred := []
      foreign := []
      stats := { x.stats with
        deferred := x.stats.deferred + x.foreign.length
        drained := x.stats.drained + (x.deferred ++ x.foreign).length } } = x := by
  obtain ⟨⟩ := x
  subst hd hf
  rfl

theorem drain (hs : s.stack = .task (.drain K.hub) :: below) (hd : s.hub.deferred = [])
    (hf : s.hub.foreign = []) : Takes K 1 s (s.setStack below) :=
  task hs rfl (.refl _) fun w h => by
    change Depicts K (w.drain K.hub) _
    unfold World.drain
    simp only [h.hub]
    split
    · exact h
    · have hm := (h.modifyHub fun x => { x with deferred := [], foreign := [] }).modifyStats
        fun t => { t with
          deferred := t.deferred + s.hub.foreign.length
          drained := t.drained + (s.hub.deferred ++ s.hub.foreign).length }
      have he : (s.hub.deferred ++ s.hub.foreign).isEmpty = true := by rw [hd, hf]; rfl
      change Depicts K (if (s.hub.deferred ++ s.hub.foreign).isEmpty then _ else _) _
      rw [if_pos he]
      have hhub : ((s.setStack below).setHub { s.hub with
          deferred := []
          foreign := []
          stats := { s.hub.stats with
            deferred := s.hub.stats.deferred + s.hub.foreign.length
            drained := s.hub.stats.drained + (s.hub.deferred ++ s.hub.foreign).length } }) =
            s.setStack below := by
        rw [hub_drained hd hf]
        rfl
      exact Eq.mp (congrArg (Depicts K _) hhub) hm

end Takes

private theorem Depicts.switchError? (h : Depicts K w s) {c : Nat} {g : Greenlet}
    (ho : s.object r = some ⟨c, .greenlet g⟩) (hc : s.hub.closed = false)
    (hb : s.hub.isBusy = false) (ht : g.thread = s.hub.thread) (hd : g.state.isDead = false) :
    w.switchError? K.hub r = none := by
  unfold World.switchError?
  simp [h.hub, h.greenlet ho, hc, hb, ht, hd]

namespace Takes

variable {c : Nat} {g : Greenlet} {p : Payload} {f : FiberId} {x : Fiber Task}

theorem drive (hs : s.stack = .task (.switch K.hub r p) :: below)
    (ho : s.object r = some ⟨c, .greenlet g⟩) (hc : s.hub.closed = false)
    (hb : s.hub.isBusy = false) (ht : g.thread = s.hub.thread) (hd : g.state.isDead = false)
    (hr : r ≠ s.hub.current) (hf : s.hub.runningFiber = false) (hdef : s.hub.deferred = [])
    (hfor : s.hub.foreign = []) :
    Takes K 3 s (((s.setStack (.task (.driveTarget K.hub r p) :: below)).setObject r
      ⟨c + 1, .greenlet g⟩).setHub { s.hub with driving := true }) := by
  have h₁ : Takes K 1 s ((s.setStack (.task (.drive K.hub r p) :: below)).setObject r
      ⟨c + 1, .greenlet g⟩) := task hs rfl (.refl _) fun w h => by
    have hw : w.runTask (.switch K.hub r p) = (w.retain r).push [.drive K.hub r p] := by
      have hh : w.hub K.hub = s.hub := h.hub
      change w.switch K.hub r p = _
      unfold World.switch
      simp [h.switchError? ho hc hb ht hd, hh, hr, hf]
    rw [hw]
    exact (h.retain ho).push _
  have h₂ : Takes K 1 _ (((s.setStack (.task (.drain K.hub) :: .task (.driveTarget K.hub r p) ::
      below)).setObject r ⟨c + 1, .greenlet g⟩).setHub { s.hub with driving := true }) :=
    task (s := (s.setStack (.task (.drive K.hub r p) :: below)).setObject r ⟨c + 1, .greenlet g⟩)
      rfl rfl (.refl _) fun w h => by
    have hdr : (s.hub.driving && !s.hub.runningFiber) = false := by
      unfold Hub.isBusy at hb
      simp only [Bool.or_eq_false_iff] at hb
      exact hb.2
    have hw : w.runTask (.drive K.hub r p) =
        (w.modifyHub K.hub fun x => { x with driving := true }).push
          [.drain K.hub, .driveTarget K.hub r p] := by
      have hh : w.hub K.hub = s.hub := h.hub
      change w.drive K.hub r p = _
      unfold World.drive
      simp only [hh, hdr, Bool.false_eq_true, if_false]
    rw [hw]
    exact (h.modifyHub _).push _
  exact h₁.trans (h₂.trans (drain rfl hdef hfor) rfl) rfl

theorem suspend {above rest : List (Item Task)}
    (hs : s.stack = .task (.switch K.hub r p) :: below) (ho : s.object r = some ⟨c, .greenlet g⟩)
    (hc : s.hub.closed = false) (hb : s.hub.isBusy = false) (ht : g.thread = s.hub.thread)
    (hd : g.state.isDead = false) (hr : r ≠ s.hub.current) (hf : s.hub.runningFiber = true)
    {n : Nat} {m : Greenlet} (hme : s.object s.hub.current = some ⟨n, .greenlet m⟩)
    (hfib : m.fiber = some ⟨K.thread, f⟩) (hout : s.hub.outgoing = none) (hx : s.fibers[f]? = some x)
    (harm : x.armed = true) (hsplit : Control.split below = some (above, f, false, rest)) :
    Takes K 2 s ((((s.setStack rest).setObject r ⟨c + 1, .greenlet g⟩).setHub
      { s.hub with outgoing := some (.switch r p) }).setFibers (s.fibers.modify f fun x =>
        { x with phase := .parked (.task (.resumed K.hub) :: above) })) := by
  have h₁ : Takes K 1 s (((s.setStack (.task (.suspend K.hub f) :: below)).setObject r
      ⟨c + 1, .greenlet g⟩).setHub { s.hub with outgoing := some (.switch r p) }) :=
    task hs rfl (.refl _) fun w h => by
    have hret := h.retain ho
    have hcur : ((w.retain r).greenlet s.hub.current).fiber = some ⟨K.thread, f⟩ := by
      by_cases hq : s.hub.current = r
      · exact absurd hq.symm hr
      · rw [hret.greenlet (r := s.hub.current) (n := n) (g := m)
          ((Function.update_of_ne hq ..).trans hme), hfib]
    have hw : w.runTask (.switch K.hub r p) = ((w.retain r).modifyHub K.hub fun x =>
        { x with outgoing := some (.switch r p) }).push [.suspend K.hub f] := by
      have hh : w.hub K.hub = s.hub := h.hub
      have hh' : (w.retain r).hub K.hub = s.hub := h.hub
      have ha : (w.retain r).active = K.thread := h.active
      change w.switch K.hub r p = _
      unfold World.switch World.switchFromFiber
      simp [h.switchError? ho hc hb ht hd, hh, hh', hr, hf, hcur, ha, Pinned.get?, hout,
        Task.dropOutgoing]
    rw [hw]
    exact (hret.modifyHub _).push _
  refine h₁.trans (task rfl rfl (.refl _) fun w h => ?_) rfl
  have hw : w.runTask (.suspend K.hub f) = w.setControl
      ⟨rest, s.fibers.modify f fun x => { x with phase := .parked (.task (.resumed K.hub) :: above) },
        w.lost⟩ := by
    have hfd : w.fiberD f = x := h.fiberD hx
    have hsus : (w.push [.resumed K.hub]).control.suspend = some ⟨rest, s.fibers.modify f fun x =>
        { x with phase := .parked (.task (.resumed K.hub) :: above) }, w.lost⟩ := by
      have hsp : Control.split (.task (.resumed K.hub) :: below) =
          some (.task (.resumed K.hub) :: above, f, false, rest) := by
        simp [Control.split, hsplit]
      rw [(h.push _).control]
      change (Control.split (.task (.resumed K.hub) :: below)).map _ = _
      rw [hsp]
      rfl
    change w.suspend K.hub f = _
    unfold World.suspend
    rw [hfd, if_pos harm, hsus]
  rw [hw]
  exact h.setControl _

end Takes

theorem Depicts.registerSwitch (h : Depicts K w s) {c n : Nat} {g m : Greenlet}
    (ho : s.object r = some ⟨c, .greenlet g⟩) (ht : g.thread = s.hub.thread)
    (hd : g.state.isDead = false) (hr : s.hub.current ≠ r)
    (hme : s.object s.hub.current = some ⟨n, .greenlet m⟩) :
    ∃ w', w.registerSwitch K.hub r = (.ok s.hub.current, w') ∧ Depicts K w'
      (((s.setObject s.hub.current ⟨n, .greenlet { m with state := m.state.giveWay }⟩).setObject r
        ⟨c + 1, .greenlet { g with state := .running }⟩).setHub { s.hub with
          current := r, stats := { s.hub.stats with switches := s.hub.stats.switches + 1 } }) := by
  have hh : w.hub K.hub = s.hub := h.hub
  have hg : w.greenlet r = g := h.greenlet ho
  have h₁ : Depicts K ((w.retain r).modifyHub K.hub fun x => { x with current := r })
      ((s.setObject r ⟨c + 1, .greenlet g⟩).setHub { s.hub with current := r }) :=
    (h.retain ho).modifyHub _
  have hcur : ((s.setObject r ⟨c + 1, .greenlet g⟩).setHub { s.hub with current := r }).object
      s.hub.current = some ⟨n, .greenlet m⟩ := (Function.update_of_ne hr ..).trans hme
  have hm : ((w.retain r).modifyHub K.hub fun x => { x with current := r }).greenlet s.hub.current = m :=
    h₁.greenlet hcur
  unfold World.registerSwitch
  simp only [hh, hg, hm]
  rw [if_neg (by simp [ht])]
  refine ⟨_, rfl, ?_⟩
  refine Depicts.mute ?_ (.write ..)
  have h₂ : Depicts K (if m.state == .running then ((w.retain r).modifyHub K.hub fun x =>
      { x with current := r }).setState s.hub.current .suspended else (w.retain r).modifyHub K.hub fun x =>
      { x with current := r }) (((s.setObject r ⟨c + 1, .greenlet g⟩).setHub { s.hub with
        current := r }).setObject s.hub.current ⟨n, .greenlet { m with state := m.state.giveWay }⟩) := by
    unfold RunState.giveWay
    split
    · rename_i hs
      have hs : m.state = .running := by simpa using hs
      have hg := h₁.modifyGreenlet hcur fun g => { g with state := g.state.moveTo .suspended }
      have hm : m.state.moveTo .suspended = .suspended := by rw [hs]; rfl
      rw [hm] at hg
      exact hg
    · rw [Snapshot.setObject_self _ hcur]
      exact h₁
  have hr₂ : (((s.setObject r ⟨c + 1, .greenlet g⟩).setHub { s.hub with current := r }).setObject
      s.hub.current ⟨n, .greenlet { m with state := m.state.giveWay }⟩).object r =
      some ⟨c + 1, .greenlet g⟩ :=
    (Function.update_of_ne (Ne.symm hr) ..).trans (Function.update_self ..)
  have h₃ := (h₂.modifyGreenlet hr₂ fun g => { g with state := g.state.moveTo .running }).modifyStats
    fun x => { x with switches := x.switches + 1 }
  have he : RunState.moveTo g.state .running = .running := by simp [RunState.moveTo, hd]
  rw [he] at h₃
  have hobj : (s.setObject s.hub.current ⟨n, .greenlet { m with state := m.state.giveWay }⟩).setObject
      r ⟨c + 1, .greenlet { g with state := .running }⟩ = ((s.setObject r ⟨c + 1, .greenlet g⟩).setObject
        s.hub.current ⟨n, .greenlet { m with state := m.state.giveWay }⟩).setObject r
          ⟨c + 1, .greenlet { g with state := .running }⟩ := by
    rw [Snapshot.setObject_comm _ (Ne.symm hr), Snapshot.setObject_setObject]
  rw [hobj]
  exact h₃

namespace Takes

variable {c : Nat} {g : Greenlet} {p : Payload} {f : FiberId} {x : Fiber Task}

theorem register {n : Nat} {m : Greenlet} (hs : s.stack = .task (.driveRegister K.hub r f) :: below)
    (ho : s.object r = some ⟨c, .greenlet g⟩) (ht : g.thread = s.hub.thread)
    (hd : g.state.isDead = false) (hr : s.hub.current ≠ r)
    (hme : s.object s.hub.current = some ⟨n, .greenlet m⟩) (hn : 2 ≤ n) :
    Takes K 2 s ((((s.setStack (.task (.driveResume K.hub r f) :: below)).setObject s.hub.current
      ⟨n - 1, .greenlet { m with state := m.state.giveWay }⟩).setObject r
        ⟨c + 1, .greenlet { g with state := .running }⟩).setHub { s.hub with
          current := r, stats := { s.hub.stats with switches := s.hub.stats.switches + 1 } }) := by
  have h₁ : Takes K 1 s ((((s.setStack (.task (.drop s.hub.current) ::
      .task (.driveResume K.hub r f) :: below)).setObject s.hub.current
        ⟨n, .greenlet { m with state := m.state.giveWay }⟩).setObject r
          ⟨c + 1, .greenlet { g with state := .running }⟩).setHub { s.hub with
            current := r, stats := { s.hub.stats with switches := s.hub.stats.switches + 1 } }) := by
    refine task hs rfl (.switched _) fun w h => ?_
    obtain ⟨w₁, he, h₁⟩ := h.registerSwitch ho ht hd hr hme
    have hw : w.runTask (.driveRegister K.hub r f) =
        w₁.push [.drop s.hub.current, .driveResume K.hub r f] := by
      have he : w.registerSwitch K.hub r = (.ok s.hub.current, w₁) := he
      change w.driveRegister K.hub r f = _
      unfold World.driveRegister
      rw [he]
    rw [hw]
    exact h₁.push _
  refine h₁.trans
    ((drop rfl ((Function.update_of_ne hr ..).trans (Function.update_self ..)) hn).ends ?_) rfl
  have he := Snapshot.setObject_back (s.setStack (.task (.driveResume K.hub r f) :: below)) hr
    ⟨n, .greenlet { m with state := m.state.giveWay }⟩
    ⟨n - 1, .greenlet { m with state := m.state.giveWay }⟩
    ⟨c + 1, .greenlet { g with state := .running }⟩
  exact congrArg (fun t : Snapshot => t.setHub _) he

end Takes

end World

end Switchyard
