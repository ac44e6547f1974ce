import Switchyard.Proofs.Relay.Tasks

/-!
# The end of greenlets and hubs on snapshots

A greenlet that is dead and has no stack is destroyed with its last reference. A thread that exits
shuts its hub, and the last owner of the hub disposes of it.
-/

namespace Switchyard

theorem RunState.moveTo_dead_eq (s : RunState) : s.moveTo .dead = .dead := by
  cases s <;> rfl

namespace World

variable {K : Site} {w : World} {s : Snapshot} {r q : Ref} {o : Object}
  {below : List (Item Task)} {c n : Nat} {g : Greenlet} {m : Lock}

namespace Takes

theorem dropDead (hs : s.stack = .task (.drop r) :: below) (ho : s.object r = some ⟨1, .greenlet g⟩)
    (hm : g.isMain = false) (hh : g.hub = K.hub) (hr : g.run = none) (hf : g.fiber = none)
    (hi : g.inbox = none) (hq : g.parent = some q) (hqr : q ≠ r) (hoq : s.object q = some o)
    (hc : 2 ≤ o.count) (hlive : 0 < s.hub.holders) (hl : s.lock.ensure? K.thread = some m)
    (hrel : m.release = s.lock) :
    Takes K 4 s { s.setStack below with
      object := Function.update
        (Function.update s.object q (some { o with count := o.count - 1 })) r none
      hub := { s.hub with nodes := s.hub.nodes.erase r } } := by
  let t := (((s.setStack below).setObject r ⟨0, .greenlet g⟩).setHub
    { s.hub with nodes := s.hub.nodes.erase r }).push [.destroy r]
  have h₁ : Takes K 1 s t := task hs rfl (.refl _) fun w h => by
    have h₁ := h.modifyObject (o := ⟨1, .greenlet g⟩) ho fun o => { o with count := o.count - 1 }
    have hg : (w.modifyObject r fun o => { o with count := o.count - 1 }).greenlet r = g :=
      h₁.greenlet (Function.update_self ..)
    have hw : w.runTask (.drop r) =
        ((w.modifyObject r fun o => { o with count := o.count - 1 }).forget K.hub r).push
          [.destroy r] := by
      change w.drop r = _
      unfold World.drop
      rw [show w.object? r = _ from (congrFun h.object r).trans ho]
      refine (if_pos (Nat.le_refl 1)).trans ?_
      unfold World.lastDropped World.releaseHook
      simp only [hm, hg, hh, Bool.false_eq_true, if_false, Greenlet.hasStack, hf, Option.isSome_none,
        Bool.not_false, if_true, h₁.hubLives hlive]
    rw [hw]
    exact (h₁.modifyHub _).push _
  have hparts : greenletParts g = [.drop q] := by simp [greenletParts, hq, hr, hf, hi]
  have h₂ := destroyGreenlet (K := K) (s := t) rfl (Function.update_self ..) hl
  rw [hparts] at h₂
  refine h₁.trans (h₂.trans (trans (drop rfl ?_ hc) ((reclaim rfl).ends ?_) rfl) rfl) rfl
  · simp [t, Snapshot.setStack, Snapshot.setObject, Snapshot.setHub, Snapshot.setLock, Snapshot.push,
      hqr, hoq]
  · simp [t, Snapshot.setStack, Snapshot.setObject, Snapshot.setHub, Snapshot.setLock, Snapshot.push,
      hrel, Function.update_comm hqr]

theorem dropMain (hs : s.stack = .task (.drop r) :: below) (ho : s.object r = some ⟨1, .greenlet g⟩)
    (hm : g.isMain = true) (hp : greenletParts g = []) (hl : s.lock.ensure? K.thread = some m)
    (hrel : m.release = s.lock) :
    Takes K 3 s { s.setStack below with object := Function.update s.object r none } := by
  let t := ((s.setStack below).setObject r ⟨0, .greenlet g⟩).push [.destroy r]
  have h₁ : Takes K 1 s t := task hs rfl (.refl _) fun w h => by
    have hw : w.runTask (.drop r) =
        (w.modifyObject r fun o => { o with count := o.count - 1 }).push [.destroy r] := by
      change w.drop r = _
      unfold World.drop
      rw [show w.object? r = _ from (congrFun h.object r).trans ho]
      refine (if_pos (Nat.le_refl 1)).trans ?_
      unfold World.lastDropped
      simp only [hm, if_true]
    rw [hw]
    exact (h.modifyObject ho _).push _
  have h₂ := destroyGreenlet (K := K) (s := t) rfl (Function.update_self ..) hl
  rw [hp] at h₂
  refine h₁.trans (h₂.trans ((reclaim rfl).ends ?_) rfl) rfl
  simp [t, Snapshot.setStack, Snapshot.setObject, Snapshot.setLock, Snapshot.push, hrel]

private theorem hub_emptied {x : Hub} (hd : x.deferred = []) (hf : x.foreign = [])
    (ho : x.outgoing = none) (hr : x.releasing = false) (hrun : x.runningFiber = false) :
    { x with
      deferred := []
      foreign := []
      outgoing := none
      releasing := false
      runningFiber := false } = x := by
  obtain ⟨⟩ := x
  subst hd hf ho hr hrun
  rfl

theorem teardown (hs : s.stack = .task (.teardown K.hub) :: below) (hc : s.hub.closed = false)
    (hn : s.hub.nodes = []) :
    Takes K 1 s (((s.setStack below).setHub { s.hub with closed := true }).push
      [.teardownQueues K.hub 0]) :=
  task hs rfl (.refl _) fun w h => by
    have h₁ := (h.modifyHub fun x => { x with closed := true, nodes := [] }).modifyStats
      fun x => { x with abandoned := x.abandoned + 0 }
    have hw : w.runTask (.teardown K.hub) = ((w.modifyHub K.hub fun x =>
        { x with closed := true, nodes := [] }).modifyStats K.hub fun x =>
          { x with abandoned := x.abandoned + 0 }).push [.teardownQueues K.hub 0] := by
      have hh : w.hub K.hub = s.hub := h.hub
      change w.teardown K.hub = _
      unfold World.teardown
      simp only [hh, hc, hn, Bool.false_eq_true, if_false, List.foldl_nil, List.nil_append]
    rw [hw, show s.hub = { s.hub with nodes := [] } by rw [← hn]]
    exact h₁.push _

theorem teardownAgain (hs : s.stack = .task (.teardown K.hub) :: below)
    (hc : s.hub.closed = true) : Takes K 1 s (s.setStack below) :=
  task hs rfl (.refl _) fun w h => by
    have hh : w.hub K.hub = s.hub := h.hub
    have hw : w.runTask (.teardown K.hub) = w := by
      change w.teardown K.hub = _
      unfold World.teardown
      simp only [hh, hc, if_true]
    rw [hw]
    exact h

theorem teardownQueues (hs : s.stack = .task (.teardownQueues K.hub n) :: below)
    (hd : s.hub.deferred = []) (hf : s.hub.foreign = []) (ho : s.hub.outgoing = none)
    (hr : s.hub.releasing = false) (hrun : s.hub.runningFiber = false) :
    Takes K 1 s ((s.setStack below).push [.teardownCurrent K.hub n]) :=
  task hs rfl (.refl _) fun w h => by
    have h₁ := h.modifyHub fun x => { x with
      deferred := [], foreign := [], outgoing := none, releasing := false, runningFiber := false }
    have hw : w.runTask (.teardownQueues K.hub n) = (w.modifyHub K.hub fun x => { x with
        deferred := [], foreign := [], outgoing := none, releasing := false,
        runningFiber := false }).push [.teardownCurrent K.hub n] := by
      have hh : w.hub K.hub = s.hub := h.hub
      change w.teardownQueues K.hub n = _
      unfold World.teardownQueues
      simp only [hh, hd, hf, ho]
      rfl
    have h₂ : Depicts K _ ((s.setStack below).setHub { s.hub with
        deferred := [], foreign := [], outgoing := none, releasing := false,
        runningFiber := false }) := h₁
    rw [hub_emptied hd hf ho hr hrun] at h₂
    rw [hw]
    exact h₂.push _

theorem teardownCurrent (hs : s.stack = .task (.teardownCurrent K.hub n) :: below)
    (hcur : s.hub.current = s.hub.main) (ho : s.object s.hub.main = some o) :
    Takes K 1 s (((s.setStack below).setObject s.hub.main { o with count := o.count + 2 }).push
      [.drop s.hub.main, .teardownEnd K.hub s.hub.main n]) :=
  task hs rfl (.refl _) fun w h => by
    have h₁ := ((h.retain ho).retain (Function.update_self ..)).modifyHub
      fun x => { x with current := x.main }
    have hw : w.runTask (.teardownCurrent K.hub n) = (((w.retain s.hub.main).retain
        s.hub.main).modifyHub K.hub fun x => { x with current := x.main }).push
          [.drop s.hub.main, .teardownEnd K.hub s.hub.main n] := by
      have hh : w.hub K.hub = s.hub := h.hub
      change w.teardownCurrent K.hub n = _
      unfold World.teardownCurrent
      simp only [hh, hcur]
    rw [hw]
    have h₂ := h₁.push [.drop s.hub.main, .teardownEnd K.hub s.hub.main n]
    rw [Snapshot.setObject_setObject] at h₂
    have hsame : ({ s.hub with current := s.hub.main } : Hub) = s.hub := by rw [← hcur]
    change Depicts K _ ((((s.setStack below).setObject _ _).setHub
      { s.hub with current := s.hub.main }).push _) at h₂
    rw [hsame] at h₂
    exact h₂

theorem teardownEnd (hs : s.stack = .task (.teardownEnd K.hub r n) :: below)
    (ho : s.object r = some ⟨c, .greenlet g⟩) :
    Takes K 1 s (((s.setStack below).setObject r ⟨c, .greenlet { g with state := .dead }⟩).push
      [.drop r]) :=
  task hs rfl (.refl _) fun w h => by
    have h₁ := ((h.modifyGreenlet ho fun g => { g with state := g.state.moveTo .dead }).mute
      (.write .debug ("thread state for " ++ threadName (w.hub K.hub).thread ++ " torn down, " ++
        toString n ++ " stacks abandoned"))).push [.drop r]
    rw [RunState.moveTo_dead_eq] at h₁
    exact h₁

theorem leaveLast (hs : s.stack = .task (.leaveHub K.hub) :: below) (hh : s.hub.holders = 1) :
    Takes K 1 s (((s.setStack below).setHub { s.hub with holders := 0 }).push
      [.teardown K.hub, .dropHubFields K.hub]) :=
  task hs rfl (.refl _) fun w h => by
    have h₁ := h.modifyHub fun x => { x with holders := x.holders - 1 }
    have hzero : ((s.setStack below).setHub { s.hub with holders := s.hub.holders - 1 }) =
        (s.setStack below).setHub { s.hub with holders := 0 } := by rw [hh]
    change Depicts K _ ((s.setStack below).setHub { s.hub with holders := s.hub.holders - 1 }) at h₁
    rw [hzero] at h₁
    have hw : w.runTask (.leaveHub K.hub) = (w.modifyHub K.hub fun x =>
        { x with holders := x.holders - 1 }).push [.teardown K.hub, .dropHubFields K.hub] := by
      have hlives : (w.modifyHub K.hub fun x =>
          { x with holders := x.holders - 1 }).hubLives K.hub = false := by
        rw [World.hubLives, h₁.hub]
        rfl
      change w.leaveHub K.hub = _
      unfold World.leaveHub
      simp only [hlives, Bool.false_eq_true, if_false]
    rw [hw]
    exact h₁.push _

private theorem hub_dropped {x : Hub} (hd : x.deferred = []) (hf : x.foreign = [])
    (ho : x.outgoing = none) :
    { x with disposed := true, outgoing := none, deferred := [], foreign := [] } =
      { x with disposed := true } := by
  obtain ⟨⟩ := x
  subst hd hf ho
  rfl

theorem dropHubFields (hs : s.stack = .task (.dropHubFields K.hub) :: below)
    (hd : s.hub.deferred = []) (hf : s.hub.foreign = []) (ho : s.hub.outgoing = none) :
    Takes K 1 s (((s.setStack below).setHub { s.hub with disposed := true }).push
      [.drop s.hub.main, .drop s.hub.current]) :=
  task hs rfl (.refl _) fun w h => by
    have h₁ := h.modifyHub fun x => { x with
      outgoing := none, deferred := [], foreign := [], disposed := true }
    have hw : w.runTask (.dropHubFields K.hub) = (w.modifyHub K.hub fun x => { x with
        outgoing := none, deferred := [], foreign := [], disposed := true }).push
          [.drop s.hub.main, .drop s.hub.current] := by
      have hh : w.hub K.hub = s.hub := h.hub
      change w.dropHubFields K.hub = _
      unfold World.dropHubFields
      simp only [hh, hd, hf, ho]
      rfl
    have h₂ : Depicts K _ ((s.setStack below).setHub { s.hub with
        disposed := true, outgoing := none, deferred := [], foreign := [] }) := h₁
    rw [hub_dropped hd hf ho] at h₂
    rw [hw]
    exact h₂.push _

theorem endHome (hs : s.stack = .task (.teardown K.hub) :: .task (.leaveHub K.hub) :: below)
    (hc : s.hub.closed = false) (hn : s.hub.nodes = []) (hd : s.hub.deferred = [])
    (hf : s.hub.foreign = []) (ho : s.hub.outgoing = none) (hr : s.hub.releasing = false)
    (hrun : s.hub.runningFiber = false) (hheld : s.hub.holders = 1)
    (hcur : s.hub.current = s.hub.main) (hobj : s.object s.hub.main = some ⟨2, .greenlet g⟩)
    (hm : g.isMain = true) (hp : greenletParts g = []) (hl : s.lock.ensure? K.thread = some m)
    (hrel : m.release = s.lock) :
    Takes K 13 s { s.setStack below with
      object := Function.update s.object s.hub.main none
      hub := { s.hub with closed := true, holders := 0, disposed := true } } := by
  refine trans (teardown hs hc hn) (trans (teardownQueues rfl hd hf ho hr hrun) ?_ rfl) rfl
  refine trans (teardownCurrent rfl hcur hobj) ?_ rfl
  refine trans (drop rfl (Function.update_self ..) (by simp)) ?_ rfl
  refine trans (teardownEnd rfl (Function.update_self ..)) ?_ rfl
  refine trans (drop rfl (Function.update_self ..) (by simp)) ?_ rfl
  refine trans (leaveLast rfl hheld) (trans (teardownAgain rfl rfl) ?_ rfl) rfl
  refine trans (dropHubFields rfl hd hf ho) ?_ rfl
  refine trans (drop rfl (Function.update_self ..) (by simp)) ?_ rfl
  refine ends (dropMain (g := { g with state := .dead }) rfl ?_ hm hp hl hrel) ?_
  · simp [Snapshot.setStack, Snapshot.setObject, Snapshot.setHub, Snapshot.push, hcur]
  · simp [Snapshot.setStack, Snapshot.setObject, Snapshot.setHub, Snapshot.push, hcur]

end Takes

end World

end Switchyard
