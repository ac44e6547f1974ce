import Switchyard.Proofs.Relay.Driver
import Switchyard.Proofs.Relay.Failing

/-!
# Switches on snapshots

The way from one fiber to another one: the driver gets control back, and its next target is entered
or goes on.
-/

namespace Switchyard

namespace World

variable {K : Site} {w : World} {s s' : Snapshot} {r : Ref}
  {o : Object} {below : List (Item Task)} {n c : Nat} {g m : Greenlet} {p : Payload} {f : FiberId}
  {x : Fiber Task} {b : String} {run : RunFn} {a : Args Obj}

theorem modify_modify {α : Type} (l : Array α) (i : Nat) (u v : α → α) :
    (l.modify i u).modify i v = l.modify i fun x => v (u x) := by
  refine Array.ext_getElem? fun j => ?_
  simp only [Array.getElem?_modify]
  split <;> simp [Function.comp_def]

namespace Takes

theorem runBody (hs : s.stack = .task (.runBody (.script b [] []) a) :: below) :
    Takes K 1 s ((s.setStack below).push [.steps ((K.bodies.lookup b).getD []),
      .frame { last := a, propagates := true }, .bodyEnd (.script b [] [])]) :=
  task hs rfl (.refl _) fun w h => by
    have h₁ := h.mute (.event "start" [.text b, w.argsDatum a])
    have hw : w.runTask (.runBody (.script b [] []) a) =
        (w.event "start" [.text b, w.argsDatum a]).push [.steps ((K.bodies.lookup b).getD []),
          .frame { last := a, propagates := true }, .bodyEnd (.script b [] [])] := by
      rw [← h₁.bodies]
      rfl
    rw [hw]
    exact h₁.push _

private theorem asked (hK : K.home = .full K.hub) {name body : String} {rest : List Script.Step}
    {k : Nat} {o : Object}
    (hs : s.stack = .task (.steps (Script.pass name body rest)) :: below) (hk : s.fuel = k + 2)
    (hcl : s.hub.closed = false) (ho : s.object s.hub.current = some o)
    (hp : Script.IsPlain name) (hn : s.handles.find? name = none) :
    Takes K 4 s { s with
      stack := .task (.switch K.hub s.size (.ok .empty)) :: .task (.leaveHub K.hub) ::
        .task (.switched "switch" s.size none) :: .task (.steps rest) :: below
      object := Function.update (Function.update s.object s.hub.current
        (some { o with count := o.count + 1 }))
          s.size (some ⟨2, .greenlet (s.newborn K.hub (.script body [] []))⟩)
      size := s.size + 1
      hub := { s.hub with nodes := s.size :: s.hub.nodes, holders := s.hub.holders + 1 }
      handles := s.handles.insert name s.size
      ids := s.ids.next.2
      fuel := k } := by
  have hfind : (s.handles.insert name s.size).find? name = some s.size := by
    rw [Table.find?_insert, if_pos rfl]
  exact trans (create hK hs hk hcl ho hn) (ends (ask hK rfl rfl hp hfind (Function.update_self ..))
    (by simp [Snapshot.setStack, Snapshot.setObject, Snapshot.setHub, Snapshot.create,
      Snapshot.push])) rfl

theorem passOn (hK : K.home = .full K.hub) {name body : String} {rest : List Script.Step}
    {above under : List (Item Task)} {k : Nat}
    (hs : s.stack = .task (.steps (Script.pass name body rest)) :: under)
    (hsplit : Control.split under = some (above, f, false, below)) (hk : s.fuel = k + 2)
    (hcl : s.hub.closed = false) (hrel : s.hub.releasing = false) (hrun : s.hub.runningFiber = true)
    (hout : s.hub.outgoing = none) (ho : s.object s.hub.current = some ⟨c, .greenlet g⟩)
    (hf : g.fiber = some ⟨K.thread, f⟩) (hne : s.hub.current ≠ s.size) (hx : s.fibers[f]? = some x)
    (harm : x.armed = true) (hp : Script.IsPlain name) (hn : s.handles.find? name = none) :
    Takes K 6 s { s with
      stack := below
      object := Function.update (Function.update s.object s.hub.current (some ⟨c + 1, .greenlet g⟩))
        s.size (some ⟨3, .greenlet (s.newborn K.hub (.script body [] []))⟩)
      size := s.size + 1
      hub := { s.hub with
        nodes := s.size :: s.hub.nodes
        holders := s.hub.holders + 1
        outgoing := some (.switch s.size (.ok .empty)) }
      fibers := s.fibers.modify f fun x => { x with
        phase := .parked (.task (.resumed K.hub) :: .task (.leaveHub K.hub) ::
          .task (.switched "switch" s.size none) :: .task (.steps rest) :: above) }
      handles := s.handles.insert name s.size
      ids := s.ids.next.2
      fuel := k } := by
  have hb : s.hub.isBusy = false := by simp [Hub.isBusy, hrel, hrun]
  have hsplit' : Control.split (.task (.leaveHub K.hub) :: .task (.switched "switch" s.size none) ::
      .task (.steps rest) :: under) = some (.task (.leaveHub K.hub) ::
        .task (.switched "switch" s.size none) :: .task (.steps rest) :: above, f, false, below) := by
    simp [Control.split, hsplit]
  exact trans (asked hK hs hk hcl ho hp hn) (ends (suspend rfl (Function.update_self ..) hcl hb rfl
    rfl hne.symm hrun ((Function.update_of_ne hne ..).trans (Function.update_self ..)) hf hout hx harm
    hsplit')
    (by simp [Snapshot.setStack, Snapshot.setObject, Snapshot.setHub, Snapshot.setFibers])) rfl

theorem giveBack {next : Ref} (hs : s.stack = .task (.driveBack K.hub r f) :: below)
    (hx : s.fibers[f]? = some x) (hfin : x.finished = false) (hh : 2 ≤ x.handles)
    (hout : s.hub.outgoing = some (.switch next p)) (ho : s.object r = some o) (hc : 2 ≤ o.count)
    (hd : s.hub.deferred = []) (hf : s.hub.foreign = []) :
    Takes K 5 s { s with
      stack := .task (.driveTarget K.hub next p) :: below
      hub := { s.hub with runningFiber := false, outgoing := none }
      fibers := s.fibers.modify f fun x => { x with handles := x.handles - 1 }
      object := Function.update s.object r (some { o with count := o.count - 1 }) } :=
  trans (backParked hs hx hfin hout) (trans (unshare rfl (.inl rfl) hx hh)
    (suspended rfl ho hc hd hf) rfl) rfl

theorem enter (hs : s.stack = .task (.driveTarget K.hub r (.ok a)) :: below)
    (ho : s.object r = some ⟨c, .greenlet g⟩) (hm : g.isMain = false) (hf : g.fiber = none)
    (hr : g.run = some run) (ht : g.thread = s.hub.thread) (hd : g.state.isDead = false)
    (hcur : s.hub.current ≠ r) (hme : s.object s.hub.current = some ⟨n, .greenlet m⟩)
    (hn : 2 ≤ n) :
    Takes K 4 s { s with
      stack := .task (.runBody run a) :: .task (.entry K.hub s.fibers.size) ::
        .base s.fibers.size false :: .task (.driveBack K.hub r s.fibers.size) :: below
      fibers := s.fibers.push { phase := .active, armed := true, started := true, handles := 2 }
      hub := { s.hub with
        current := r
        runningFiber := true
        stats := { s.hub.stats with
          started := s.hub.stats.started + 1, switches := s.hub.stats.switches + 1 } }
      object := Function.update (Function.update s.object s.hub.current
        (some ⟨n - 1, .greenlet { m with state := m.state.giveWay }⟩)) r
          (some ⟨c + 1, .greenlet { g with
            state := .running, run := none, fiber := some ⟨K.thread, s.fibers.size⟩ }⟩) } := by
  refine trans (targetFresh hs ho hm hf hr) ?_ rfl
  refine trans (register (n := n) (m := m) rfl (Function.update_self ..) ht hd hcur
    ((Function.update_of_ne hcur ..).trans hme) hn) ?_ rfl
  refine ends (resumeFresh rfl Array.getElem?_push_size rfl) ?_
  simp [Snapshot.setStack, Snapshot.setFibers, Snapshot.setHub, Snapshot.setObject, modify_push,
    Function.update_comm hcur]

theorem enterBody (hs : s.stack = .task (.driveTarget K.hub r (.ok a)) :: below)
    (ho : s.object r = some ⟨c, .greenlet g⟩) (hm : g.isMain = false) (hf : g.fiber = none)
    (hr : g.run = some (.script b [] [])) (ht : g.thread = s.hub.thread)
    (hd : g.state.isDead = false) (hcur : s.hub.current ≠ r)
    (hme : s.object s.hub.current = some ⟨n, .greenlet m⟩) (hn : 2 ≤ n) :
    Takes K 5 s { s with
      stack := .task (.steps ((K.bodies.lookup b).getD [])) ::
        .task (.frame { last := a, propagates := true }) :: .task (.bodyEnd (.script b [] [])) ::
        .task (.entry K.hub s.fibers.size) :: .base s.fibers.size false ::
        .task (.driveBack K.hub r s.fibers.size) :: below
      fibers := s.fibers.push { phase := .active, armed := true, started := true, handles := 2 }
      hub := { s.hub with
        current := r
        runningFiber := true
        stats := { s.hub.stats with
          started := s.hub.stats.started + 1, switches := s.hub.stats.switches + 1 } }
      object := Function.update (Function.update s.object s.hub.current
        (some ⟨n - 1, .greenlet { m with state := m.state.giveWay }⟩)) r
          (some ⟨c + 1, .greenlet { g with
            state := .running, run := none, fiber := some ⟨K.thread, s.fibers.size⟩ }⟩) } :=
  trans (enter hs ho hm hf hr ht hd hcur hme hn) (ends (runBody rfl) rfl) rfl

theorem goOn {above : List (Item Task)} (hs : s.stack = .task (.driveTarget K.hub r p) :: below)
    (ho : s.object r = some ⟨c, .greenlet g⟩) (hm : g.isMain = false) (hst : g.state = .suspended)
    (hf : g.fiber = some ⟨K.thread, f⟩) (hi : g.inbox = none) (ht : g.thread = s.hub.thread)
    (hx : s.fibers[f]? = some x) (hph : x.phase = .parked (.task (.resumed K.hub) :: above))
    (hcur : s.hub.current ≠ r) (hme : s.object s.hub.current = some ⟨n, .greenlet m⟩) (hn : 2 ≤ n) :
    Takes K 5 s (Snapshot.receive p { s with
      stack := above ++ .base f false :: .task (.driveBack K.hub r f) :: below
      fibers := s.fibers.modify f fun x => { x with handles := x.handles + 1, phase := .active }
      hub := { s.hub with
        current := r
        runningFiber := true
        stats := { s.hub.stats with switches := s.hub.stats.switches + 1 } }
      object := Function.update (Function.update s.object s.hub.current
        (some ⟨n - 1, .greenlet { m with state := m.state.giveWay }⟩)) r
          (some ⟨c + 1, .greenlet { g with state := .running }⟩) }) := by
  have hu : g.state ≠ .unstarted := by rw [hst]; nofun
  have hd : g.state.isDead = false := by rw [hst]; rfl
  have hx' : (s.fibers.modify f fun x => { x with handles := x.handles + 1 })[f]? =
      some { x with handles := x.handles + 1 } := by
    rw [Array.getElem?_modify, if_pos rfl, hx]
    rfl
  refine trans (targetParked hs ho hm hu hf hi) ?_ rfl
  refine trans (register (n := n) (m := m) rfl (Function.update_self ..) ht hd hcur
    ((Function.update_of_ne hcur ..).trans hme) hn) ?_ rfl
  refine trans (resumeParked rfl hx' hph) ?_ rfl
  refine ends (resumed rfl (Function.update_self ..) rfl) (congrArg (Snapshot.receive p) ?_)
  simp [Snapshot.setStack, Snapshot.setFibers, Snapshot.setHub, Snapshot.setObject, modify_modify,
    Function.update_comm hcur, ← hi]

theorem backAtMain (hs : s.stack = .task (.driveTarget K.hub r p) :: below)
    (ho : s.object r = some ⟨c, .greenlet g⟩) (hm : g.isMain = true) (ht : g.thread = s.hub.thread)
    (hd : g.state.isDead = false) (hc : 1 ≤ c) (hcur : s.hub.current ≠ r)
    (hme : s.object s.hub.current = some ⟨n, .greenlet m⟩) (hn : 2 ≤ n) :
    Takes K 6 s (Snapshot.receive p { s with
      stack := below
      hub := { s.hub with
        current := r
        driving := false
        stats := { s.hub.stats with switches := s.hub.stats.switches + 1 } }
      object := Function.update (Function.update s.object s.hub.current
        (some ⟨n - 1, .greenlet { m with state := m.state.giveWay }⟩)) r
          (some ⟨c, .greenlet { g with state := .running }⟩) }) := by
  refine trans (targetMain hs ho hm ht hd hcur hme) ?_ rfl
  refine trans
    (drop rfl ((Function.update_of_ne hcur ..).trans (Function.update_self ..)) hn) ?_ rfl
  refine trans (atMain rfl ((Function.update_of_ne hcur.symm ..).trans (Function.update_self ..))
    (Nat.succ_le_succ hc)) ?_ rfl
  refine ends (deliver rfl) (congrArg (Snapshot.receive p) ?_)
  simp [Snapshot.setStack, Snapshot.setHub, Snapshot.setObject, Function.update_comm hcur]

theorem stayAtMain (hs : s.stack = .task (.driveTarget K.hub r p) :: below)
    (ho : s.object r = some ⟨c, .greenlet g⟩) (hm : g.isMain = true) (ht : g.thread = s.hub.thread)
    (hst : g.state = .running) (hr : s.hub.current = r) (hc : 2 ≤ c) :
    Takes K 6 s (Snapshot.receive p { s with
      stack := below
      hub := { s.hub with
        driving := false
        stats := { s.hub.stats with switches := s.hub.stats.switches + 1 } }
      object := Function.update s.object r (some ⟨c - 1, .greenlet g⟩) }) := by
  refine trans (targetSelf hs ho hm ht hst hr) ?_ rfl
  refine trans (drop rfl (Function.update_self ..) (Nat.le_succ_of_le hc)) ?_ rfl
  refine trans (atMain rfl (Function.update_self ..) hc) ?_ rfl
  refine ends (deliver rfl) (congrArg (Snapshot.receive p) ?_)
  simp [Snapshot.setStack, Snapshot.setHub, Snapshot.setObject]

theorem finish {q : Ref} {d : Nat} (hs : s.stack = .base f false :: .task (.driveBack K.hub r f) :: below)
    (hx : s.fibers[f]? = some x) (hh : x.handles = 2) (hout : s.hub.outgoing = some (.result p))
    (ho : s.object r = some ⟨c, .greenlet g⟩) (hc : 2 ≤ c) (hf : g.fiber = some ⟨K.thread, f⟩)
    (hq : g.parent = some q) (hrq : r ≠ q) (hoq : s.object q = some ⟨d, .greenlet m⟩)
    (hl : m.state.isDead = false) (hd : s.hub.deferred = []) (hfor : s.hub.foreign = []) :
    Takes K 7 s { s with
      stack := .task (.driveTarget K.hub q (exitToEmpty p)) :: below
      fibers := s.fibers.modify f fun x =>
        { x.settle with phase := .taken, handles := x.handles - 2, cancelling := true }
      hub := { s.hub with
        runningFiber := false
        outgoing := none
        stats := { s.hub.stats with finished := s.hub.stats.finished + 1 } }
      object := Function.update (Function.update s.object q (some ⟨d + 1, .greenlet m⟩)) r
        (some ⟨c - 1, .greenlet { g with state := .dead, fiber := none }⟩) } := by
  have hx₁ : (s.fibers.modify f fun x => { x.settle with phase := .ended })[f]? =
      some { x.settle with phase := .ended } := by
    rw [Array.getElem?_modify, if_pos rfl, hx]
    rfl
  have hx₂ : ((s.fibers.modify f fun x => { x.settle with phase := .ended }).modify f fun x =>
      { x with handles := x.handles - 1 })[f]? =
        some { x.settle with phase := .ended, handles := x.handles - 1 } := by
    rw [Array.getElem?_modify, if_pos rfl, hx₁]
    rfl
  refine trans (base hs) (trans (backFinished rfl hx₁ rfl hout ho hf) ?_ rfl) rfl
  refine trans (unshare rfl (.inr rfl) hx₁ (Nat.le_of_eq hh.symm)) ?_ rfl
  refine trans (unshareLast rfl (.inl rfl) hx₂ (congrArg (· - 1) hh) rfl) ?_ rfl
  refine ends (finished rfl (Function.update_self ..) hc hq hrq
    ((Function.update_of_ne hrq.symm ..).trans hoq) hl hd hfor) ?_
  simp [Snapshot.setStack, Snapshot.setHub, Snapshot.setObject, Snapshot.setFibers, modify_modify,
    Function.update_comm hrq, Fiber.settle, Nat.sub_sub]

theorem descend (hK : K.home = .full K.hub) {name body : String} {rest : List Script.Step}
    {above under : List (Item Task)} {k : Nat}
    (hs : s.stack = .task (.steps (Script.pass name body rest)) :: under)
    (hsplit : Control.split under =
      some (above, f, false, .task (.driveBack K.hub s.hub.current f) :: below))
    (hk : s.fuel = k + 2) (hcl : s.hub.closed = false) (hrel : s.hub.releasing = false)
    (hrun : s.hub.runningFiber = true) (hout : s.hub.outgoing = none) (hdef : s.hub.deferred = [])
    (hfor : s.hub.foreign = []) (ho : s.object s.hub.current = some ⟨c, .greenlet g⟩) (hc : 2 ≤ c)
    (hf : g.fiber = some ⟨K.thread, f⟩) (hne : s.hub.current ≠ s.size)
    (hx : s.fibers[f]? = some x) (harm : x.armed = true) (hfin : x.finished = false)
    (hh : 2 ≤ x.handles) (hp : Script.IsPlain name) (hn : s.handles.find? name = none) :
    Takes K 16 s { s with
      stack := .task (.steps ((K.bodies.lookup body).getD [])) ::
        .task (.frame { propagates := true }) :: .task (.bodyEnd (.script body [] [])) ::
        .task (.entry K.hub s.fibers.size) :: .base s.fibers.size false ::
        .task (.driveBack K.hub s.size s.fibers.size) :: below
      fibers := (s.fibers.modify f fun x => { x with
        phase := .parked (.task (.resumed K.hub) :: .task (.leaveHub K.hub) ::
          .task (.switched "switch" s.size none) :: .task (.steps rest) :: above)
        handles := x.handles - 1 }).push
          { phase := .active, armed := true, started := true, handles := 2 }
      hub := { s.hub with
        current := s.size
        nodes := s.size :: s.hub.nodes
        holders := s.hub.holders + 1
        stats := { s.hub.stats with
          started := s.hub.stats.started + 1, switches := s.hub.stats.switches + 1 } }
      object := Function.update (Function.update s.object s.hub.current
        (some ⟨c - 1, .greenlet { g with state := g.state.giveWay }⟩)) s.size
          (some ⟨4, .greenlet { s.newborn K.hub (.script body [] []) with
            state := .running, run := none, fiber := some ⟨K.thread, s.fibers.size⟩ }⟩)
      size := s.size + 1
      handles := s.handles.insert name s.size
      ids := s.ids.next.2
      fuel := k } := by
  have hpark (ph : Fiber.Phase Task) :
      (s.fibers.modify f fun x => { x with phase := ph })[f]? = some { x with phase := ph } := by
    rw [Array.getElem?_modify, if_pos rfl, hx]
    rfl
  refine trans (passOn hK hs hsplit hk hcl hrel hrun hout ho hf hne hx harm hp hn) ?_ rfl
  refine trans (giveBack rfl (hpark _) hfin hh rfl
    ((Function.update_of_ne hne ..).trans (Function.update_self ..)) (Nat.le_succ_of_le hc)
      hdef hfor) ?_ rfl
  refine ends (enterBody (n := c) (m := g) rfl
    ((Function.update_of_ne hne.symm ..).trans (Function.update_self ..)) rfl rfl rfl rfl rfl hne
    (Function.update_self ..) hc) ?_
  simp [modify_modify, Function.update_comm hne, hrun, hout]

theorem mainCreate (hK : K.home = .full K.hub) {name body : String} {rest : List Script.Step}
    {k : Nat}
    (hs : s.stack = .task (.mainSteps (Script.pass name body rest)) :: below) (hk : s.fuel = k + 1)
    (hcl : s.hub.closed = false) (ho : s.object s.hub.current = some o)
    (hn : s.handles.find? name = none) :
    Takes K 3 s { s.create K.hub (.script body [] []) o with
      stack := .task (.steps []) :: .task .mainGuard ::
        .task (.mainSteps (.switch name (.built [] []) none none :: rest)) :: below
      fuel := k
      handles := s.handles.insert name s.size } :=
  trans (mainSteps hs) (create hK rfl hk hcl ho hn) rfl

theorem mainSwitch (hK : K.home = .full K.hub) {name : String} {rest : List Script.Step} {k : Nat}
    (hs : s.stack = .task (.steps []) :: .task .mainGuard ::
      .task (.mainSteps (.switch name (.built [] []) none none :: rest)) :: below)
    (hk : s.fuel = k + 1) (hcl : s.hub.closed = false) (hrel : s.hub.releasing = false)
    (hdr : s.hub.driving = false) (hrun : s.hub.runningFiber = false) (hdef : s.hub.deferred = [])
    (hfor : s.hub.foreign = []) (hp : Script.IsPlain name) (hn : s.handles.find? name = some r)
    (ho : s.object r = some ⟨c, .greenlet g⟩) (hm : g.isMain = false) (hf : g.fiber = none)
    (hr : g.run = some (.script b [] [])) (ht : g.thread = s.hub.thread)
    (hd : g.state.isDead = false) (hcur : s.hub.current ≠ r)
    (hme : s.object s.hub.current = some ⟨n, .greenlet m⟩) (hc : 2 ≤ n) :
    Takes K 13 s { s with
      stack := .task (.steps ((K.bodies.lookup b).getD [])) ::
        .task (.frame { propagates := true }) :: .task (.bodyEnd (.script b [] [])) ::
        .task (.entry K.hub s.fibers.size) :: .base s.fibers.size false ::
        .task (.driveBack K.hub r s.fibers.size) :: .task (.leaveHub K.hub) ::
        .task (.switched "switch" r none) :: .task (.steps []) :: .task .mainGuard ::
        .task (.mainSteps rest) :: below
      fibers := s.fibers.push { phase := .active, armed := true, started := true, handles := 2 }
      hub := { s.hub with
        current := r
        runningFiber := true
        driving := true
        holders := s.hub.holders + 1
        stats := { s.hub.stats with
          started := s.hub.stats.started + 1, switches := s.hub.stats.switches + 1 } }
      object := Function.update (Function.update s.object s.hub.current
        (some ⟨n - 1, .greenlet { m with state := m.state.giveWay }⟩)) r
          (some ⟨c + 3, .greenlet { g with
            state := .running, run := none, fiber := some ⟨K.thread, s.fibers.size⟩ }⟩)
      fuel := k } := by
  have hb : s.hub.isBusy = false := by simp [Hub.isBusy, hrel, hdr]
  refine trans (done hs) (trans (mainGuard rfl) (trans (mainSteps rfl) ?_ rfl) rfl) rfl
  refine trans (ask hK rfl hk hp hn ho) ?_ rfl
  refine trans (drive rfl (Function.update_self ..) hcl hb ht hd hcur.symm hrun hdef hfor) ?_ rfl
  refine ends (enterBody (n := n) (m := m) rfl (Function.update_self ..) hm hf hr ht hd hcur ?_ hc) ?_
  · exact (Function.update_of_ne hcur ..).trans ((Function.update_of_ne hcur ..).trans hme)
  · simp [Snapshot.setStack, Snapshot.setHub, Snapshot.setObject, Snapshot.push, Function.update_comm hcur]

end Takes

end World

end Switchyard
