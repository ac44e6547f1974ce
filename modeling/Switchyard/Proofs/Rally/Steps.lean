import Switchyard.Proofs.Relay.Hops

/-!
# The rally program on snapshots

What each of its steps does: which numbers it makes, whom it calls and what it prints.
-/

namespace Switchyard

def Args.one (r : Ref) : Args Obj := ⟨[some r], []⟩

def Args.oneAnd (r : Ref) (name : String) (q : Ref) : Args Obj := ⟨[some r], [(name, some q)]⟩

namespace Snapshot

variable (s : Snapshot)

def print (line : String) : Snapshot := { s with printed := line :: s.printed }

/-- The hub is held, and the switch to `target` is next. -/
def call (h : HubId) (target : Ref) (p : Payload) (next : Rally) : Snapshot :=
  (s.setHub { s.hub with holders := s.hub.holders + 1 }).push
    [.switch h target p, .leaveHub h, .rally next]

end Snapshot

namespace World

variable {K : Site} {w : World} {s s' : Snapshot} {r main pong ping : Ref} {o : Object}
  {below : List (Item Task)} {c : Nat} {x y rounds left ball : Int64} {g : Greenlet} {a : Args Obj}
  {outcome : Except SwitchError (Args Obj)}

namespace Depicts

theorem print (h : Depicts K w s) (line : String) : Depicts K (w.print line) (s.print line) :=
  { h with printed := congrArg (line :: ·) h.printed }

theorem numberArgs (h : Depicts K w s) (n : Int64) :
    (w.numberArgs n).1 = .one s.size ∧ Depicts K (w.numberArgs n).2 (s.alloc (.i64 n)) :=
  ⟨congrArg Args.one h.size, (h.alloc _).2⟩

theorem valueD (h : Depicts K w s) {v : Value} (ho : s.object r = some ⟨c, v⟩) :
    w.valueD r = v := by
  rw [World.valueD, h.object, ho]
  rfl

theorem number? (h : Depicts K w s) {kw : List (String × Obj)}
    (ho : s.object r = some ⟨c, .i64 x⟩) : w.number? ⟨[some r], kw⟩ = some x := by
  have hv : w.valueD r = .i64 x := h.valueD ho
  simp [World.number?, Args.get?, hv]

theorem keywordNumber? (h : Depicts K w s) {name : String} {q : Ref}
    (ho : s.object q = some ⟨c, .i64 x⟩) :
    w.keywordNumber? name (.oneAnd r name q) = some x := by
  have hv : w.valueD q = .i64 x := h.valueD ho
  simp [World.keywordNumber?, Args.keyword?, Args.oneAnd, hv]

theorem call (h : Depicts K w s) (hK : K.home = .full K.hub) (target : Ref) (p : Payload)
    (next : Rally) : Depicts K (Rally.call target p next w) (s.call K.hub target p next) := by
  obtain ⟨w₁, he, h₁⟩ := h.homeHub hK
  unfold Rally.call
  rw [he]
  exact (h₁.modifyHub _).push _

end Depicts

def lastLines (dead : Bool) (t : Stats) : List String :=
  ["pong dead: " ++ toString dead, "switches=" ++ toString t.switches ++ " started=" ++
    toString t.started ++ " finished=" ++ toString t.finished, "", "=== Example Complete ==="]

namespace Takes

theorem hit (hK : K.home = .full K.hub)
    (hs : s.stack = .task (.rally (.hit main (.one r))) :: below)
    (ho : s.object r = some ⟨c, .i64 x⟩) (h0 : 0 ≤ x.toInt) (hx : x.toInt < K.rounds) :
    Takes K 1 s (((s.setStack below).alloc (.i64 (x + 1))).call K.hub main (.ok (.one s.size))
      (.hitBack main (.one r))) := by
  refine next (.refl _) fun w h => ?_
  have hstk : w.thread.stack = .task (.rally (.hit main (.one r))) :: below := h.stack.trans hs
  obtain ⟨hh, hn⟩ := next_task hstk nofun
  refine ⟨fun main' a' below' he => ?_, hh, ?_⟩
  · rw [hstk] at he
    cases he
    rw [Args.one, h.number? ho]
    exact ⟨h0, hx⟩
  · have h₁ := (h.setStack below).mute (.write .info ("pong got " ++ toString x.toInt))
    obtain ⟨ha, h₂⟩ := h₁.numberArgs (x + 1)
    have hw : w.next = Rally.call main (.ok (.one s.size)) (.hitBack main (.one r))
        (((w.setStack below).write .info ("pong got " ++ toString x.toInt)).numberArgs
          (x + 1)).2 := by
      have hx : (w.setStack below).number? (.one r) = some x := (h.setStack below).number? ho
      have ha : _ = Args.one s.size := ha
      rw [hn]
      change Rally.run (.hit main (.one r)) (w.setStack below) = _
      unfold Rally.run
      simp only [hx, Option.getD_some, ha]
    rw [hw]
    exact h₂.call hK ..

theorem serve (hK : K.home = .full K.hub)
    (hs : s.stack = .task (.rally (.serve pong a rounds left ball)) :: below) (hl : ¬ left ≤ 0) :
    Takes K 1 s (((s.setStack below).alloc (.i64 ball)).call K.hub pong (.ok (.one s.size))
      (.served pong a rounds (left - 1) ball)) :=
  task hs rfl (.refl _) fun w h => by
    obtain ⟨ha, h₁⟩ := h.numberArgs ball
    have hw : w.runTask (.rally (.serve pong a rounds left ball)) =
        Rally.call pong (.ok (.one s.size)) (.served pong a rounds (left - 1) ball)
          (w.numberArgs ball).2 := by
      have ha : (w.numberArgs ball).1 = .one s.size := ha
      change Rally.run (.serve pong a rounds left ball) w = _
      unfold Rally.run
      simp only [if_neg hl, ha]
    rw [hw]
    exact h₁.call hK ..

theorem serveNone (hs : s.stack = .task (.rally (.serve pong a rounds left ball)) :: below)
    (hl : left ≤ 0) :
    Takes K 1 s ((((s.setStack below).alloc (.i64 ball)).alloc (.i64 rounds)).push
      (Task.dropArgs a ++ [.drop pong, .result (.ok (.oneAnd s.size "rounds" (s.size + 1)))])) :=
  task hs rfl (.refl _) fun w h => by
    obtain ⟨ha, h₁⟩ := h.numberArgs ball
    obtain ⟨hr, h₂⟩ := h₁.alloc (.i64 rounds)
    have hw : w.runTask (.rally (.serve pong a rounds left ball)) =
        ((w.numberArgs ball).2.alloc (.i64 rounds)).2.push (Task.dropArgs a ++
          [.drop pong, .result (.ok (.oneAnd s.size "rounds" (s.size + 1)))]) := by
      have ha : (w.numberArgs ball).1 = .one s.size := ha
      have hr : ((w.numberArgs ball).2.alloc (.i64 rounds)).1 = s.size + 1 := hr
      change Rally.run (.serve pong a rounds left ball) w = _
      unfold Rally.run
      simp only [if_pos hl, ha, hr]
      rfl
    rw [hw]
    exact h₂.push _

theorem runPong (hs : s.stack = .task (.runBody (.pong main) a) :: below) :
    Takes K 1 s ((s.setStack below).push [.rally (.hit main a)]) :=
  task hs rfl (.refl _) fun _ h => h.push _

theorem runPing (hs : s.stack = .task (.runBody (.ping pong) (.one r)) :: below)
    (ho : s.object r = some ⟨c, .i64 x⟩) :
    Takes K 1 s ((s.setStack below).push [.rally (.serve pong (.one r) x x 0)]) :=
  task hs rfl (.refl _) fun w h => by
    have hx : w.number? (.one r) = some x := h.number? ho
    have hw : w.runTask (.runBody (.ping pong) (.one r)) =
        w.push [.rally (.serve pong (.one r) x x 0)] := by
      change w.runBody (.ping pong) (.one r) = _
      unfold World.runBody
      simp only [hx, Option.getD_some]
    rw [hw]
    exact h.push _

theorem handOver {y : Rally} {f : FiberId} {z : Fiber Task} {n : Nat} {m : Greenlet} {p : Payload}
    (hs : s.stack = .task (.switch K.hub r p) :: .task (.leaveHub K.hub) :: .task (.rally y) ::
      .task (.entry K.hub f) :: .base f false :: .task (.driveBack K.hub s.hub.current f) :: below)
    (ho : s.object r = some ⟨c, .greenlet g⟩) (hc : s.hub.closed = false)
    (hb : s.hub.isBusy = false) (ht : g.thread = s.hub.thread) (hd : g.state.isDead = false)
    (hr : r ≠ s.hub.current) (hrun : s.hub.runningFiber = true)
    (hme : s.object s.hub.current = some ⟨n, .greenlet m⟩) (hn : 2 ≤ n)
    (hfib : m.fiber = some ⟨K.thread, f⟩) (hout : s.hub.outgoing = none)
    (hdef : s.hub.deferred = []) (hfor : s.hub.foreign = []) (hz : s.fibers[f]? = some z)
    (harm : z.armed = true) (hfin : z.finished = false) (hh : 2 ≤ z.handles) :
    Takes K 7 s { s with
      stack := .task (.driveTarget K.hub r p) :: below
      hub := { s.hub with runningFiber := false }
      fibers := s.fibers.modify f fun z => { z with
        phase := .parked [.task (.resumed K.hub), .task (.leaveHub K.hub), .task (.rally y),
          .task (.entry K.hub f)]
        handles := z.handles - 1 }
      object := Function.update (Function.update s.object r (some ⟨c + 1, .greenlet g⟩))
        s.hub.current (some ⟨n - 1, .greenlet m⟩) } := by
  have hpark (ph : Fiber.Phase Task) :
      (s.fibers.modify f fun z => { z with phase := ph })[f]? = some { z with phase := ph } := by
    rw [Array.getElem?_modify, if_pos rfl, hz]
    rfl
  refine trans (suspend hs ho hc hb ht hd hr hrun hme hfib hout hz harm rfl) ?_ rfl
  refine ends (giveBack rfl (hpark _) hfin hh rfl
    ((Function.update_of_ne hr.symm ..).trans hme) hn hdef hfor) ?_
  simp [Snapshot.setStack, Snapshot.setObject, Snapshot.setHub, Snapshot.setFibers, modify_modify,
    hout]

theorem answered {y : Rally} (hs : s.stack = .task (.answer outcome) :: .task (.rally y) :: below)
    (hg : s.hub.stats.Grows s'.hub.stats)
    (hr : ∀ w, Depicts K w (s.setStack below) → Depicts K (y.answered outcome w) s') :
    Takes K 1 s s' :=
  signal hs rfl (fun _ => rfl) hg hr

theorem hitAgain {b : Args Obj}
    (hs : s.stack = .task (.answer (.ok b)) :: .task (.rally (.hitBack main a)) :: below) :
    Takes K 1 s ((s.setStack below).push (Task.dropArgs a ++ [.rally (.hit main b)])) :=
  answered hs (.refl _) fun _ h => h.push _

theorem hitNoMore {e : SwitchError}
    (hs : s.stack = .task (.answer (.error e)) :: .task (.rally (.hitBack main a)) :: below) :
    Takes K 1 s ((s.setStack below).push
      (Task.dropArgs a ++ [.drop main, .result (.error (.ofError e))])) :=
  answered hs (.refl _) fun w h => by
    have hw : Rally.answered (.hitBack main a) (.error e) w =
        w.push (Task.dropArgs a ++ [.drop main, .result (.error (.ofError e))]) := by
      unfold Rally.answered
      simp only [Rally.drops, List.append_assoc, List.singleton_append]
    rw [hw]
    exact h.push _

theorem serveAgain
    (hs : s.stack = .task (.answer (.ok (.one r))) ::
      .task (.rally (.served pong a rounds left ball)) :: below)
    (ho : s.object r = some ⟨c, .i64 x⟩) :
    Takes K 1 s ((s.setStack below).push [.drop r, .rally (.serve pong a rounds left x)]) :=
  answered hs (.refl _) fun w h => by
    have hx : w.number? (.one r) = some x := h.number? ho
    have hw : Rally.answered (.served pong a rounds left ball) (.ok (.one r)) w =
        w.push [.drop r, .rally (.serve pong a rounds left x)] := by
      unfold Rally.answered
      simp only [hx, Option.getD_some]
      rfl
    rw [hw]
    exact h.push _

theorem relay (hK : K.home = .full K.hub)
    (hs : s.stack = .task (.answer (.ok (.one r))) :: .task (.rally (.relayed main pong ping)) ::
      below) (ho : s.object r = some ⟨c, .i64 x⟩) {n : Nat}
    (hp : s.object ping = some ⟨n, .greenlet g⟩) (hd : g.state.isDead = false) :
    Takes K 1 s (((s.setStack below).print ("main relays " ++ Rally.shown (some x))).call K.hub ping
      (.ok (.one r)) (.relayed main pong ping)) :=
  answered hs (.refl _) fun w h => by
    have hx : w.number? (.one r) = some x := h.number? ho
    have hg : w.greenlet ping = g := h.greenlet hp
    have hw : Rally.answered (.relayed main pong ping) (.ok (.one r)) w = Rally.call ping
        (.ok (.one r)) (.relayed main pong ping)
          (w.print ("main relays " ++ Rally.shown (some x))) := by
      unfold Rally.answered Rally.relay
      simp only [hx, hg, hd, Bool.false_eq_true, if_false]
    rw [hw]
    exact (h.print _).call hK ..

theorem stop (hK : K.home = .full K.hub) {q : Ref}
    (hs : s.stack = .task (.answer (.ok (.oneAnd r "rounds" q))) ::
      .task (.rally (.relayed main pong ping)) :: below)
    (ho : s.object r = some ⟨c, .i64 x⟩) {d : Nat} (hq : s.object q = some ⟨d, .i64 y⟩) {n : Nat}
    (hp : s.object ping = some ⟨n, .greenlet g⟩) (hd : g.state.isDead = true) :
    Takes K 1 s ((((s.setStack below).print "").print ("final ball: " ++ Rally.shown (some x) ++
      " after " ++ Rally.shown (some y) ++ " rounds")).call K.hub pong (.error .exit)
        (.stopped main pong ping (.oneAnd r "rounds" q))) :=
  answered hs (.refl _) fun w h => by
    have hx : w.number? (.oneAnd r "rounds" q) = some x := h.number? ho
    have hy : w.keywordNumber? "rounds" (.oneAnd r "rounds" q) = some y := h.keywordNumber? hq
    have hg : w.greenlet ping = g := h.greenlet hp
    have hw : Rally.answered (.relayed main pong ping) (.ok (.oneAnd r "rounds" q)) w =
        Rally.call pong (.error .exit) (.stopped main pong ping (.oneAnd r "rounds" q))
          ((w.print "").print ("final ball: " ++ Rally.shown (some x) ++ " after " ++
            Rally.shown (some y) ++ " rounds")) := by
      unfold Rally.answered Rally.relay
      simp only [hx, hy, hg, hd, if_true]
    rw [hw]
    exact ((h.print _).print _).call hK ..

theorem report (hK : K.home = .full K.hub)
    (hs : s.stack = .task (.answer (.ok .empty)) ::
      .task (.rally (.stopped main pong ping a)) :: below) {n : Nat}
    (hp : s.object pong = some ⟨n, .greenlet g⟩) :
    Takes K 1 s { (s.setStack below).push (Task.dropArgs a ++
        [.drop ping, .drop pong, .drop main]) with
      printed := (lastLines g.state.isDead s.hub.stats).reverse ++ s.printed } :=
  answered hs (.refl _) fun w h => by
    have hg : w.greenlet pong = g := h.greenlet hp
    have h₁ := h.print ("pong dead: " ++ toString g.state.isDead)
    obtain ⟨w₂, he, h₂⟩ := h₁.homeHub hK
    have hh : w₂.hub K.hub = s.hub := h₂.hub
    have hw : Rally.answered (.stopped main pong ping a) (.ok .empty) w =
        (((w₂.print ("switches=" ++ toString s.hub.stats.switches ++ " started=" ++
          toString s.hub.stats.started ++ " finished=" ++ toString s.hub.stats.finished)).print
            "").print "=== Example Complete ===").push (Task.dropArgs a ++
              [.drop ping, .drop pong, .drop main]) := by
      unfold Rally.answered Rally.finish
      simp only [hg, he, hh]
      rfl
    rw [hw]
    exact (((h₂.print _).print _).print _).push _

end Takes

end World

end Switchyard
