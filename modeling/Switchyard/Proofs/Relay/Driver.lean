import Switchyard.Proofs.Relay.Tasks

/-!
# The driver on snapshots

A target that runs for the first time, one that goes on, and the main greenlet; and what the driver
does when a fiber gives control back.
-/

namespace Switchyard

namespace World

variable {K : Site} {w : World} {s s' : Snapshot} {r : Ref}
  {o : Object} {below : List (Item Task)} {n c : Nat} {g m : Greenlet} {p : Payload} {f : FiberId}
  {x : Fiber Task} {run : RunFn} {a : Args Obj} {out : Option Outgoing}

theorem depthLimit_pos (w : World) : 0 < w.depthLimit := by
  have hv := Config.fallback_isValid w.env
  unfold Config.isValid Config.fault? at hv
  refine Nat.pos_of_ne_zero fun h0 => ?_
  unfold depthLimit at h0
  split at hv
  · cases hv
  · split at hv
    · cases hv
    · simp at hv

private theorem Depicts.registerSelf (h : Depicts K w s) (ho : s.object r = some ⟨c, .greenlet g⟩)
    (ht : g.thread = s.hub.thread) (hst : g.state = .running) (hr : s.hub.current = r) :
    ∃ w', w.registerSwitch K.hub r = (.ok r, w') ∧ Depicts K w' ((s.setObject r
      ⟨c + 1, .greenlet g⟩).setHub
        { s.hub with stats := { s.hub.stats with switches := s.hub.stats.switches + 1 } }) := by
  subst hr
  have hh : w.hub K.hub = s.hub := h.hub
  have hg : w.greenlet s.hub.current = g := h.greenlet ho
  let w₁ := (w.retain s.hub.current).modifyHub K.hub fun x => { x with current := s.hub.current }
  have h₁ : Depicts K w₁ (s.setObject s.hub.current ⟨c + 1, .greenlet g⟩) :=
    (h.retain ho).modifyHub fun x => { x with current := s.hub.current }
  have hg₁ : w₁.greenlet s.hub.current = g := h₁.greenlet (Function.update_self ..)
  have h₂ := ((h₁.modifyGreenlet (Function.update_self ..) fun g =>
    { g with state := g.state.moveTo .suspended }).modifyGreenlet (Function.update_self ..) fun g =>
      { g with state := g.state.moveTo .running }).modifyStats
        fun x => { x with switches := x.switches + 1 }
  have hback : ({ g with state := (g.state.moveTo .suspended).moveTo .running } : Greenlet) = g := by
    rw [hst]
    change ({ g with state := .running } : Greenlet) = g
    rw [← hst]
  rw [Snapshot.setObject_setObject, Snapshot.setObject_setObject] at h₂
  change Depicts K _ ((s.setObject s.hub.current ⟨c + 1, .greenlet
    { g with state := (g.state.moveTo .suspended).moveTo .running }⟩).setHub _) at h₂
  rw [hback] at h₂
  unfold World.registerSwitch
  simp only [hh, hg]
  rw [if_neg (by simp [ht])]
  refine ⟨_, rfl, ?_⟩
  refine Depicts.mute ?_ (.write ..)
  rw [if_pos (by rw [hg₁, hst]; rfl)]
  exact h₂

/-- The parent of a greenlet comes next, unless it is dead. -/
theorem Depicts.nextLive {q : Ref} (h : Depicts K w s) (ho : s.object r = some ⟨c, .greenlet g⟩)
    (hq : g.parent = some q) (hoq : s.object q = some ⟨n, .greenlet m⟩)
    (hl : m.state.isDead = false) : w.nextLive K.hub r = (q, w.retain q) := by
  have hg : w.greenlet r = g := h.greenlet ho
  have hgq : w.greenlet q = m := h.greenlet hoq
  have hp : w.parent r = some q := by rw [World.parent, hg, hq]
  have hfound : w.ancestor (fun q => !(w.greenlet q).state.isDead) r = .ok (some q) := by
    obtain ⟨k, hk⟩ := Nat.exists_eq_add_of_lt w.depthLimit_pos
    unfold World.ancestor World.ancestorWithin
    rw [hk, Nat.zero_add]
    unfold World.findAncestor
    simp [hp, hgq, hl]
  unfold World.nextLive
  simp only [hfound, Option.getD_some]

namespace Takes

theorem modify_push {α : Type} (l : Array α) (y : α) (u : α → α) :
    (l.push y).modify l.size u = l.push (u y) := by
  refine Array.ext_getElem? fun i => ?_
  rw [Array.getElem?_modify, Array.getElem?_push, Array.getElem?_push]
  by_cases hi : i = l.size
  · simp [hi]
  · simp [hi, Ne.symm hi]

theorem targetFresh (hs : s.stack = .task (.driveTarget K.hub r (.ok a)) :: below)
    (ho : s.object r = some ⟨c, .greenlet g⟩) (hm : g.isMain = false) (hf : g.fiber = none)
    (hr : g.run = some run) :
    Takes K 1 s ((((s.setStack (.task (.driveRegister K.hub r s.fibers.size) :: below)).setFibers
      (s.fibers.push { phase := .fresh [.runBody run a, .entry K.hub s.fibers.size]
                                  (Task.dropRun run ++ Task.dropArgs a), handles := 2 })).setObject r
        ⟨c, .greenlet { g with run := none, fiber := some ⟨K.thread, s.fibers.size⟩ }⟩).setHub
          { s.hub with stats := { s.hub.stats with started := s.hub.stats.started + 1 } }) := by
  refine task hs rfl (.begun _) fun w h => ?_
  let y : Fiber Task := {
    phase := .fresh [.runBody run a, .entry K.hub s.fibers.size] (Task.dropRun run ++ Task.dropArgs a)
    handles := 2 }
  let k : Control Task := ⟨below, s.fibers.push y, w.lost⟩
  have hk : (w.control.create [.runBody run a, .entry K.hub w.fibers.size]
      (Task.dropRun run ++ Task.dropArgs a)).2.share w.fibers.size = k := by
    rw [h.control, h.fibers]
    exact congrArg (fun l => Control.mk below l w.lost) (modify_push ..)
  have hg : w.greenlet r = g := h.greenlet ho
  have hw : w.runTask (.driveTarget K.hub r (.ok a)) = (((w.setControl k).modifyGreenlet r fun g =>
      { g with run := none, fiber := some ⟨K.thread, s.fibers.size⟩ }).modifyStats K.hub fun t =>
        { t with started := t.started + 1 }).push [.driveRegister K.hub r s.fibers.size] := by
    have ha : w.active = K.thread := h.active
    have hfb : w.fibers = s.fibers := h.fibers
    rw [hfb] at hk
    change w.driveTarget K.hub r (.ok a) = _
    unfold World.driveTarget
    simp only [hg, hm, Bool.false_eq_true, if_false, hf, hr, Option.bind_none, hfb, hk]
    rw [show (w.setControl k).active = K.thread from ha]
    cases g.state <;> rfl
  rw [hw]
  exact (((h.setControl k).modifyGreenlet ho _).modifyStats _).push _

theorem targetParked (hs : s.stack = .task (.driveTarget K.hub r p) :: below)
    (ho : s.object r = some ⟨c, .greenlet g⟩) (hm : g.isMain = false)
    (hst : g.state ≠ .unstarted) (hf : g.fiber = some ⟨K.thread, f⟩) (hi : g.inbox = none) :
    Takes K 1 s (((s.setStack (.task (.driveRegister K.hub r f) :: below)).setFibers
      (s.fibers.modify f fun x => { x with handles := x.handles + 1 })).setObject r
        ⟨c, .greenlet { g with inbox := some p }⟩) :=
  task hs rfl (.refl _) fun w h => by
    have hg : w.greenlet r = g := h.greenlet ho
    have hk : w.control.share f =
        ⟨below, s.fibers.modify f fun x => { x with handles := x.handles + 1 }, w.lost⟩ := by
      rw [h.control]
      rfl
    have hw : w.runTask (.driveTarget K.hub r p) = ((w.setControl (w.control.share f)).modifyGreenlet r
        fun g => { g with inbox := some p }).push [.driveRegister K.hub r f] := by
      have ha : w.active = K.thread := h.active
      have hfib : g.fiber.bind (·.get? w.active) = some f := by
        rw [hf]
        exact Pinned.get?_eq_some_iff.mpr ⟨ha.symm, rfl⟩
      change w.driveTarget K.hub r p = _
      unfold World.driveTarget
      simp only [hg, hm, Bool.false_eq_true, if_false, hfib, hi]
      split
      · rename_i heq
        exact absurd heq hst
      · rfl
    rw [hw, hk]
    exact ((h.setControl _).modifyGreenlet ho _).push _

theorem targetMain (hs : s.stack = .task (.driveTarget K.hub r p) :: below)
    (ho : s.object r = some ⟨c, .greenlet g⟩) (hm : g.isMain = true) (ht : g.thread = s.hub.thread)
    (hd : g.state.isDead = false) (hr : s.hub.current ≠ r)
    (hme : s.object s.hub.current = some ⟨n, .greenlet m⟩) :
    Takes K 1 s ((((s.setStack (.task (.drop s.hub.current) :: .task (.driveMain K.hub r p) ::
      below)).setObject s.hub.current
        ⟨n, .greenlet { m with state := m.state.giveWay }⟩).setObject r
          ⟨c + 1, .greenlet { g with state := .running }⟩).setHub { s.hub with
            current := r, stats := { s.hub.stats with switches := s.hub.stats.switches + 1 } }) := by
  refine task hs rfl (.switched _) fun w h => ?_
  obtain ⟨w₁, he, h₁⟩ := h.registerSwitch ho ht hd hr hme
  have hw : w.runTask (.driveTarget K.hub r p) =
      w₁.push [.drop s.hub.current, .driveMain K.hub r p] := by
    have he : w.registerSwitch K.hub r = (.ok s.hub.current, w₁) := he
    have hg : w.greenlet r = g := h.greenlet ho
    change w.driveTarget K.hub r p = _
    unfold World.driveTarget
    simp only [hg, hm, if_true, he]
  rw [hw]
  exact h₁.push _

theorem targetSelf (hs : s.stack = .task (.driveTarget K.hub r p) :: below)
    (ho : s.object r = some ⟨c, .greenlet g⟩) (hm : g.isMain = true) (ht : g.thread = s.hub.thread)
    (hst : g.state = .running) (hr : s.hub.current = r) :
    Takes K 1 s (((s.setStack (.task (.drop r) :: .task (.driveMain K.hub r p) :: below)).setObject r
      ⟨c + 1, .greenlet g⟩).setHub
        { s.hub with stats := { s.hub.stats with switches := s.hub.stats.switches + 1 } }) := by
  refine task hs rfl (.switched _) fun w h => ?_
  obtain ⟨w₁, he, h₁⟩ := h.registerSelf ho ht hst hr
  have hw : w.runTask (.driveTarget K.hub r p) = w₁.push [.drop r, .driveMain K.hub r p] := by
    have hg : w.greenlet r = g := h.greenlet ho
    change w.driveTarget K.hub r p = _
    unfold World.driveTarget
    simp only [hg, hm, if_true, he]
  rw [hw]
  exact h₁.push _

private theorem resume {fibers : Array (Fiber Task)} {stack : List (Item Task)}
    (hs : s.stack = .task (.driveResume K.hub r f) :: below)
    (hr : ∀ lost, (⟨.task (.driveBack K.hub r f) :: below, s.fibers, lost⟩ : Control Task).resume f =
      some ⟨stack, fibers, lost⟩) :
    Takes K 1 s (((s.setStack stack).setFibers fibers).setHub
      { s.hub with runningFiber := true }) :=
  task hs rfl (.refl _) fun w h => by
    have h₁ := (h.modifyHub fun x => { x with runningFiber := true }).push [.driveBack K.hub r f]
    have hw : w.runTask (.driveResume K.hub r f) = ((w.modifyHub K.hub fun x =>
        { x with runningFiber := true }).push [.driveBack K.hub r f]).setControl
          ⟨stack, fibers, w.lost⟩ := by
      change w.driveResume K.hub r f = _
      unfold World.driveResume
      have hk : ((w.modifyHub K.hub fun s => { s with runningFiber := true }).push
          [.driveBack K.hub r f]).control.resume f = some ⟨stack, fibers, w.lost⟩ := by
        rw [h₁.control]
        exact hr w.lost
      simp only [hk]
    rw [hw]
    exact h₁.setControl _

theorem resumeFresh {entry discard : List Task}
    (hs : s.stack = .task (.driveResume K.hub r f) :: below) (hx : s.fibers[f]? = some x)
    (hp : x.phase = .fresh entry discard) :
    Takes K 1 s (((s.setStack (entry.map .task ++ .base f false :: .task (.driveBack K.hub r f) ::
      below)).setFibers (s.fibers.modify f fun x =>
        { x with phase := .active, armed := true, started := true })).setHub
          { s.hub with runningFiber := true }) :=
  resume hs fun lost => by
    unfold Control.resume Control.fiberD
    simp only [hx, Option.getD_some, hp]
    rfl

theorem resumeParked {above : List (Item Task)}
    (hs : s.stack = .task (.driveResume K.hub r f) :: below) (hx : s.fibers[f]? = some x)
    (hp : x.phase = .parked above) :
    Takes K 1 s (((s.setStack (above ++ .base f false :: .task (.driveBack K.hub r f) ::
      below)).setFibers (s.fibers.modify f fun x => { x with phase := .active })).setHub
        { s.hub with runningFiber := true }) :=
  resume hs fun lost => by
    unfold Control.resume Control.fiberD
    simp only [hx, Option.getD_some, hp]
    rfl

theorem backParked (hs : s.stack = .task (.driveBack K.hub r f) :: below)
    (hx : s.fibers[f]? = some x) (hfin : x.finished = false) (hout : s.hub.outgoing = out) :
    Takes K 1 s ((s.setStack (.task (.unshare f) :: .task (.driveSuspended K.hub r out) ::
      below)).setHub { s.hub with runningFiber := false, outgoing := none }) :=
  task hs rfl (.refl _) fun w h => by
    have h₁ := h.modifyHub fun x => { x with runningFiber := false, outgoing := none }
    have hw : w.runTask (.driveBack K.hub r f) = (w.modifyHub K.hub fun x =>
        { x with runningFiber := false, outgoing := none }).push
          [.unshare f, .driveSuspended K.hub r out] := by
      have hf : (w.modifyHub K.hub fun x =>
        { x with runningFiber := false, outgoing := none }).fiberD f = x := h₁.fiberD hx
      have hh : (w.hub K.hub).outgoing = out := (congrArg Hub.outgoing h.hub).trans hout
      change w.driveBack K.hub r f = _
      unfold World.driveBack
      simp only [hf, hfin, hh, Bool.false_eq_true, if_false]
    rw [hw]
    exact h₁.push _

theorem backFinished (hs : s.stack = .task (.driveBack K.hub r f) :: below)
    (hx : s.fibers[f]? = some x) (hfin : x.finished = true)
    (hout : s.hub.outgoing = out) (ho : s.object r = some ⟨c, .greenlet g⟩)
    (hf : g.fiber = some ⟨K.thread, f⟩) :
    Takes K 1 s (((s.setStack (.task (.dropPinned ⟨K.thread, f⟩) :: .task (.unshare f) ::
      .task (.driveFinished K.hub r out) :: below)).setObject r
        ⟨c, .greenlet { g with state := .dead, fiber := none }⟩).setHub { s.hub with
          runningFiber := false, outgoing := none
          stats := { s.hub.stats with finished := s.hub.stats.finished + 1 } }) := by
  refine task hs rfl (.ended _) fun w h => ?_
  have h₁ := h.modifyHub fun x => { x with runningFiber := false, outgoing := none }
  have hw : w.runTask (.driveBack K.hub r f) = (((w.modifyHub K.hub fun x =>
      { x with runningFiber := false, outgoing := none }).modifyGreenlet r fun g =>
        { g with state := .dead, fiber := none }).modifyStats K.hub fun t =>
          { t with finished := t.finished + 1 }).push
            [.dropPinned ⟨K.thread, f⟩, .unshare f, .driveFinished K.hub r out] := by
    have hfd : (w.modifyHub K.hub fun x =>
      { x with runningFiber := false, outgoing := none }).fiberD f = x := h₁.fiberD hx
    have hg : (w.modifyHub K.hub fun x =>
      { x with runningFiber := false, outgoing := none }).greenlet r = g := h₁.greenlet ho
    have hh : (w.hub K.hub).outgoing = out := (congrArg Hub.outgoing h.hub).trans hout
    change w.driveBack K.hub r f = _
    unfold World.driveBack
    simp only [hfd, hfin, hh, if_true, hg, hf]
    rfl
  rw [hw]
  exact ((h₁.modifyGreenlet ho _).modifyStats _).push _

private theorem retargeted (hs : s.stack = .task (.drop r) :: .task (.drain K.hub) :: below)
    (ho : s.object r = some o) (hc : 2 ≤ o.count) (hd : s.hub.deferred = [])
    (hf : s.hub.foreign = []) :
    Takes K 2 s ((s.setStack below).setObject r { o with count := o.count - 1 }) :=
  trans (drop hs ho hc) (drain rfl hd hf) rfl

theorem suspended {next : Ref}
    (hs : s.stack = .task (.driveSuspended K.hub r (some (.switch next p))) ::
      below) (ho : s.object r = some o) (hc : 2 ≤ o.count) (hd : s.hub.deferred = [])
    (hf : s.hub.foreign = []) :
    Takes K 3 s ((s.setStack (.task (.driveTarget K.hub next p) :: below)).setObject r
      { o with count := o.count - 1 }) := by
  have h₁ : Takes K 1 s (s.setStack (.task (.drop r) :: .task (.drain K.hub) ::
      .task (.driveTarget K.hub next p) :: below)) := task hs rfl (.refl _) fun w h => h.push _
  exact h₁.trans (retargeted rfl ho hc hd hf) rfl

theorem finished {q : Ref} {d : Nat} {gq : Greenlet}
    (hs : s.stack = .task (.driveFinished K.hub r (some (.result p))) :: below)
    (ho : s.object r = some ⟨c, .greenlet g⟩) (hc : 2 ≤ c) (hq : g.parent = some q) (hrq : r ≠ q)
    (hoq : s.object q = some ⟨d, .greenlet gq⟩) (hl : gq.state.isDead = false)
    (hd : s.hub.deferred = []) (hf : s.hub.foreign = []) :
    Takes K 3 s (((s.setStack (.task (.driveTarget K.hub q (exitToEmpty p)) :: below)).setObject q
      ⟨d + 1, .greenlet gq⟩).setObject r ⟨c - 1, .greenlet g⟩) := by
  let t : Snapshot := (s.setStack (.task (.drop r) :: .task (.drain K.hub) ::
    .task (.driveTarget K.hub q (exitToEmpty p)) :: below)).setObject q ⟨d + 1, .greenlet gq⟩
  have h₁ : Takes K 1 s t := task hs rfl (.refl _) fun w h => by
    have h₀ := h.mute (.write .trace ("greenlet " ++ (w.greenlet r).id.text ++ " finished"))
    have hnext := h₀.nextLive ho hq hoq hl
    have hw : w.runTask (.driveFinished K.hub r (some (.result p))) =
        ((w.write .trace ("greenlet " ++ (w.greenlet r).id.text ++ " finished")).retain q).push
          [.drop r, .drain K.hub, .driveTarget K.hub q (exitToEmpty p)] := by
      change w.driveFinished K.hub r (some (.result p)) = _
      unfold World.driveFinished World.trace
      simp only [hnext]
      rfl
    rw [hw]
    exact (h₀.retain hoq).push _
  have hot : t.object r = some ⟨c, .greenlet g⟩ := (Function.update_of_ne hrq ..).trans ho
  exact h₁.trans (retargeted rfl hot hc hd hf) rfl

theorem targetKilled {e : Failure} (hs : s.stack = .task (.driveTarget K.hub r (.error e)) :: below)
    (ho : s.object r = some ⟨c, .greenlet g⟩) (hm : g.isMain = false) (hu : g.state = .unstarted)
    (hr : g.run = some run) :
    Takes K 1 s (((s.setStack below).setObject r
      ⟨c, .greenlet { g with state := .dead, run := none }⟩).push
        (Task.dropRun run ++ [.driveKilled K.hub r (.error e)])) :=
  task hs rfl (.refl _) fun w h => by
    have h₀ := h.mute (.write .debug ("greenlet " ++ g.id.text ++ ": killed before start"))
    have hg : w.greenlet r = g := h.greenlet ho
    have hw : w.runTask (.driveTarget K.hub r (.error e)) = ((w.write .debug ("greenlet " ++
        g.id.text ++ ": killed before start")).modifyGreenlet r fun g =>
          { g with state := .dead, run := none }).push
            (Task.dropRun run ++ [.driveKilled K.hub r (.error e)]) := by
      change w.driveTarget K.hub r (.error e) = _
      unfold World.driveTarget
      simp only [hg, hm, hu, hr, Bool.false_eq_true, if_false]
      rfl
    rw [hw]
    exact (h₀.modifyGreenlet ho _).push _

theorem killed {q : Ref} {d : Nat} {gq : Greenlet}
    (hs : s.stack = .task (.driveKilled K.hub r p) :: below)
    (ho : s.object r = some ⟨c, .greenlet g⟩) (hc : 2 ≤ c) (hq : g.parent = some q) (hrq : r ≠ q)
    (hoq : s.object q = some ⟨d, .greenlet gq⟩) (hl : gq.state.isDead = false)
    (hd : s.hub.deferred = []) (hf : s.hub.foreign = []) :
    Takes K 3 s (((s.setStack (.task (.driveTarget K.hub q (exitToEmpty p)) :: below)).setObject q
      ⟨d + 1, .greenlet gq⟩).setObject r ⟨c - 1, .greenlet g⟩) := by
  let t : Snapshot := (s.setStack (.task (.drop r) :: .task (.drain K.hub) ::
    .task (.driveTarget K.hub q (exitToEmpty p)) :: below)).setObject q ⟨d + 1, .greenlet gq⟩
  have h₁ : Takes K 1 s t := task hs rfl (.refl _) fun w h => by
    have hw : w.runTask (.driveKilled K.hub r p) = (w.retain q).push
        [.drop r, .drain K.hub, .driveTarget K.hub q (exitToEmpty p)] := by
      change w.driveKilled K.hub r p = _
      unfold World.driveKilled
      rw [h.nextLive ho hq hoq hl]
      rfl
    rw [hw]
    exact (h.retain hoq).push _
  have hot : t.object r = some ⟨c, .greenlet g⟩ := (Function.update_of_ne hrq ..).trans ho
  exact h₁.trans (retargeted rfl hot hc hd hf) rfl

theorem atMain (hs : s.stack = .task (.driveMain K.hub r p) :: below) (ho : s.object r = some o)
    (hc : 2 ≤ o.count) :
    Takes K 3 s (((s.setStack (.task (.deliver p) :: below)).setObject r
      { o with count := o.count - 1 }).setHub { s.hub with driving := false }) := by
  have h₁ : Takes K 1 s (s.setStack (.task (.endDriving K.hub) :: .task (.drop r) ::
      .task (.deliver p) :: below)) := task hs rfl (.refl _) fun w h => h.push _
  have h₂ : Takes K 1 (s.setStack (.task (.endDriving K.hub) :: .task (.drop r) ::
      .task (.deliver p) :: below)) ((s.setStack (.task (.drop r) :: .task (.deliver p) ::
        below)).setHub { s.hub with driving := false }) :=
    task rfl rfl (.refl _) fun w h => h.modifyHub _
  exact h₁.trans (h₂.trans (drop rfl ho hc) rfl) rfl

end Takes

end World

end Switchyard
