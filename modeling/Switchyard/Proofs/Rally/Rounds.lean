import Switchyard.Proofs.Rally.Steps

/-!
# The rounds of a rally

Each round is three switches: ping serves to pong, pong hits the next ball to the original stack,
and that hands the ball on to ping.
-/

namespace Switchyard

namespace World

/-- The first thread on its hub, in a rally of so many rounds. -/
def court (rounds : Int64) : Site where
  thread := 1
  hub := 0
  home := .full 0
  bodies := []
  panicked := none
  orderly := true
  rounds := rounds.toInt

/-- The ids of the three greenlets. The main greenlet is the object 0, pong is 1 and ping is 2. -/
structure Names where
  main : GreenletId
  pong : GreenletId
  ping : GreenletId

def mainAt (id : GreenletId) (state : RunState) : Greenlet :=
  ⟨id, 1, true, 0, state, none, none, none, none⟩

/-- A player that is on its fiber. -/
def playerOn (id : GreenletId) (f : FiberId) (state : RunState) : Greenlet :=
  ⟨id, 1, false, 0, state, some 0, none, some ⟨1, f⟩, none⟩

/-- A player that has not run. -/
def newcomer (id : GreenletId) (run : RunFn) : Greenlet :=
  ⟨id, 1, false, 0, .unstarted, some 0, some run, none, none⟩

def atPlay : Fiber Task := { phase := .active, armed := true, started := true, handles := 2 }

/-- The player waits for the answer to a call. -/
def atRest (f : FiberId) (y : Rally) : Fiber Task where
  phase := .parked [.task (.resumed 0), .task (.leaveHub 0), .task (.rally y), .task (.entry 0 f)]
  armed := true
  started := true

def rallyHub (current : Ref) (onFiber : Bool) (t : Stats) (holders : Nat) : Hub where
  thread := 1
  main := 0
  current := current
  runningFiber := onFiber
  driving := onFiber
  nodes := [2, 1]
  stats := t
  holders := holders

def inSome (x : Int) : String := "Some(" ++ toString x ++ ")"

def relayLine (k : Nat) : String := "main relays " ++ inSome (k + 1)

/-- What is printed after `k` relays, the latest line first. -/
def trail (k : Nat) : List String :=
  ((List.range k).map relayLine).reverse ++ ["", "=== Greenlet Ping-Pong ==="]

theorem trail_succ (k : Nat) : trail (k + 1) = relayLine k :: trail k := by
  simp [trail, List.range_succ]

/-- An object of its own with a number, made after the number of rounds. -/
structure Ball (r : Ref) (x : Int) (s : Snapshot) : Prop where
  object : ∃ y : Int64, s.object r = some ⟨1, .i64 y⟩ ∧ y.toInt = x
  made : r < s.size
  later : 3 < r

/-- The three greenlets with so many references each, and what is the object 3. -/
structure Court (number : Option Object) (hub : Hub) (main pong ping : Object)
    (lines : List String) (s : Snapshot) : Prop where
  hub : s.hub = hub
  main : s.object 0 = some main
  pong : s.object 1 = some pong
  ping : s.object 2 = some ping
  number : s.object 3 = number
  size : 3 < s.size
  pending : s.pending = .vacant
  lock : s.lock = {}
  printed : s.printed = lines

def quota (n : Int64) : Option Object := some ⟨1, .i64 n⟩

/-- What lies under a call of the original stack. -/
def underMain (y : Rally) : List (Item Task) :=
  [.task (.leaveHub 0), .task (.rally y), .task .exitThread]

/-- What lies under the code of a player. -/
def underPlayer (r : Ref) (f : FiberId) (y : Rally) : List (Item Task) :=
  .task (.entry 0 f) :: .base f false :: .task (.driveBack 0 r f) :: underMain y

/-- The original stack waits for the ball. -/
def waits : Rally := .relayed 0 1 2

variable (V : Names) (n : Int64)

/-- Ping is to serve for the first time, and pong has not run. -/
structure Opening (s : Snapshot) : Prop
    extends Court (quota n) (rallyHub 2 true { switches := 1, started := 1 } 2)
      ⟨5, .greenlet (mainAt V.main .suspended)⟩ ⟨2, .greenlet (newcomer V.pong (.pong 0))⟩
      ⟨3, .greenlet (playerOn V.ping 0 .running)⟩ (trail 0) s where
  stack : s.stack = .task (.rally (.serve 1 (.one 3) n n 0)) :: underPlayer 2 0 waits
  fibers : s.fibers = #[atPlay]

/-- Ping is to serve after `k` rounds. -/
structure Serving (k : Nat) (s : Snapshot) : Prop
    extends Court (quota n) (rallyHub 2 true { switches := 3 * k + 1, started := 2 } 3)
      ⟨5, .greenlet (mainAt V.main .suspended)⟩ ⟨2, .greenlet (playerOn V.pong 1 .suspended)⟩
      ⟨3, .greenlet (playerOn V.ping 0 .running)⟩ (trail k) s where
  stack : ∃ left ball, s.stack = .task (.rally (.serve 1 (.one 3) n left ball)) ::
    underPlayer 2 0 waits ∧ left.toInt = n.toInt - k ∧ ball.toInt = k
  pingFiber : s.fibers[0]? = some atPlay
  pongFiber : ∃ b x, s.fibers[1]? = some (atRest 1 (.hitBack 0 (.one b))) ∧ Ball b x s

/-- Ping waits for the ball of the round after `k` rounds. -/
def PingWaits (k : Nat) (s : Snapshot) : Prop :=
  ∃ left ball, s.fibers[0]? = some (atRest 0 (.served 1 (.one 3) n left ball)) ∧
    left.toInt = n.toInt - (k + 1)

/-- Pong is to hit the ball `k`. -/
structure Hitting (k : Nat) (s : Snapshot) : Prop
    extends Court (quota n) (rallyHub 1 true { switches := 3 * k + 2, started := 2 } 3)
      ⟨5, .greenlet (mainAt V.main .suspended)⟩ ⟨4, .greenlet (playerOn V.pong 1 .running)⟩
      ⟨1, .greenlet (playerOn V.ping 0 .suspended)⟩ (trail k) s where
  stack : ∃ c, s.stack = .task (.rally (.hit 0 (.one c))) :: underPlayer 1 1 waits ∧ Ball c k s
  pingFiber : PingWaits n k s
  pongFiber : s.fibers[1]? = some atPlay

/-- The original stack has the ball `k + 1`. -/
structure Relaying (k : Nat) (s : Snapshot) : Prop
    extends Court (quota n) (rallyHub 0 false { switches := 3 * k + 3, started := 2 } 3)
      ⟨6, .greenlet (mainAt V.main .running)⟩ ⟨2, .greenlet (playerOn V.pong 1 .suspended)⟩
      ⟨1, .greenlet (playerOn V.ping 0 .suspended)⟩ (trail k) s where
  balls : ∃ d b, s.stack = [.task (.answer (.ok (.one d))), .task (.rally (.relayed 0 1 2)),
      .task .exitThread] ∧ Ball d (k + 1) s ∧
    s.fibers[1]? = some (atRest 1 (.hitBack 0 (.one b))) ∧ Ball b k s ∧ d ≠ b
  pingFiber : PingWaits n k s

variable {V n} {s t : Snapshot} {r : Ref} {x : Int} {k : Nat} {below : List (Item Task)}

theorem Ball.keep (h : Ball r x s) (ho : t.object r = s.object r) (hs : s.size ≤ t.size) :
    Ball r x t :=
  ⟨by rw [ho]; exact h.object, Nat.lt_of_lt_of_le h.made hs, h.later⟩

theorem Ball.ne_main (h : Ball r x s) : 0 ≠ r := Nat.ne_of_lt (Nat.lt_trans (by decide) h.later)

theorem Ball.ne_pong (h : Ball r x s) : 1 ≠ r := Nat.ne_of_lt (Nat.lt_trans (by decide) h.later)

theorem Ball.ne_ping (h : Ball r x s) : 2 ≠ r := Nat.ne_of_lt (Nat.lt_trans (by decide) h.later)

theorem Ball.ne_rounds (h : Ball r x s) : 3 ≠ r := Nat.ne_of_lt h.later

theorem Ball.drop (h : Ball r x s) (hs : s.stack = .task (.drop r) :: below) (hl : s.lock = {}) :
    Takes (court n) 3 s { s.setStack below with object := Function.update s.object r none } := by
  obtain ⟨y, ho, -⟩ := h.object
  exact Takes.dropLast (m := ⟨1, 1⟩) hs ho (Nat.le_refl 1) rfl (by rw [hl]; rfl) (by rw [hl]; rfl)

theorem modify_congr {α : Type} {l : Array α} {i : Nat} {z : α} {u v : α → α} (hz : l[i]? = some z)
    (h : u z = v z) : l.modify i u = l.modify i v := by
  refine Array.ext_getElem? fun j => ?_
  simp only [Array.getElem?_modify]
  split
  · rename_i hj
    subst hj
    simp [hz, h]
  · rfl

theorem receive_vacant {a : Args Obj} (hp : s.pending = .vacant) :
    s.receive (.ok a) = s.push [.answer (.ok a)] := by
  unfold Snapshot.receive
  simp only [hp]

section

variable {current : Ref} {f i : FiberId} {y y' u : Rally} {T : Stats} {holders c d : Nat}
  {id id' : GreenletId} {a : Args Obj} {p : Payload} {run : RunFn}

private theorem giveAway {g : Greenlet} (hh : s.hub = rallyHub current true T holders)
    (hs : s.stack = .task (.switch 0 r (.ok a)) :: .task (.leaveHub 0) :: .task (.rally y) ::
      underPlayer current f u)
    (hr : r ≠ current) (ho : s.object r = some ⟨c, .greenlet g⟩) (hg : g.thread = 1)
    (hdead : g.state.isDead = false)
    (hme : s.object current = some ⟨d, .greenlet (playerOn id' f .running)⟩) (hd : 3 ≤ d)
    (hz : s.fibers[f]? = some atPlay) :
    Takes (court n) 7 s { s with
      stack := .task (.driveTarget 0 r (.ok a)) :: underMain u
      hub := { rallyHub current true T holders with runningFiber := false }
      fibers := s.fibers.modify f fun _ => atRest f y
      object := Function.update (Function.update s.object r (some ⟨c + 1, .greenlet g⟩)) current
        (some ⟨d - 1, .greenlet (playerOn id' f .running)⟩) } := by
  have h₁ := Takes.handOver (K := court n) (s := s) (r := r) (f := f) (by rw [hh]; exact hs) ho
    (by rw [hh]; rfl) (by rw [hh]; rfl) (by rw [hh]; exact hg) hdead (by rw [hh]; exact hr)
    (by rw [hh]; rfl) (by rw [hh]; exact hme) (Nat.le_of_succ_le hd) rfl (by rw [hh]; rfl)
    (by rw [hh]; rfl) (by rw [hh]; rfl) hz rfl rfl (Nat.le_refl 2)
  rwa [hh, modify_congr (v := fun _ => atRest f y) hz rfl] at h₁

theorem toNewcomer (hh : s.hub = rallyHub current true T holders)
    (hs : s.stack = .task (.switch 0 r (.ok a)) :: .task (.leaveHub 0) :: .task (.rally y) ::
      underPlayer current f u)
    (hr : r ≠ current) (ho : s.object r = some ⟨c, .greenlet (newcomer id run)⟩)
    (hme : s.object current = some ⟨d, .greenlet (playerOn id' f .running)⟩) (hd : 3 ≤ d)
    (hz : s.fibers[f]? = some atPlay) :
    Takes (court n) 11 s { s with
      stack := .task (.runBody run a) :: underPlayer r s.fibers.size u
      hub := rallyHub r true { T with switches := T.switches + 1, started := T.started + 1 } holders
      fibers := (s.fibers.modify f fun _ => atRest f y).push atPlay
      object := Function.update
        (Function.update s.object current (some ⟨d - 2, .greenlet (playerOn id' f .suspended)⟩)) r
          (some ⟨c + 2, .greenlet (playerOn id s.fibers.size .running)⟩) } := by
  refine (giveAway hh hs hr ho rfl rfl hme hd hz).trans (Takes.ends (Takes.enter rfl
    ((Function.update_of_ne hr ..).trans (Function.update_self ..)) rfl rfl rfl rfl rfl
    hr.symm (Function.update_self ..) (Nat.le_sub_of_add_le hd)) ?_) rfl
  simp [rallyHub, Function.update_comm hr, Nat.sub_sub, underPlayer, court, atPlay]
  rfl

theorem toPlayer (hh : s.hub = rallyHub current true T holders) (hheld : 2 ≤ holders)
    (hs : s.stack = .task (.switch 0 r (.ok a)) :: .task (.leaveHub 0) :: .task (.rally y) ::
      underPlayer current f u)
    (hr : r ≠ current) (ho : s.object r = some ⟨c, .greenlet (playerOn id i .suspended)⟩)
    (hme : s.object current = some ⟨d, .greenlet (playerOn id' f .running)⟩) (hd : 3 ≤ d)
    (hz : s.fibers[f]? = some atPlay) (hi : s.fibers[i]? = some (atRest i y')) (hfi : f ≠ i)
    (hp : s.pending = .vacant) :
    Takes (court n) 14 s { s with
      stack := .task (.answer (.ok a)) :: .task (.rally y') :: underPlayer r i u
      hub := rallyHub r true { T with switches := T.switches + 1 } (holders - 1)
      fibers := (s.fibers.modify f fun _ => atRest f y).modify i fun _ => atPlay
      object := Function.update
        (Function.update s.object current (some ⟨d - 2, .greenlet (playerOn id' f .suspended)⟩)) r
          (some ⟨c + 2, .greenlet (playerOn id i .running)⟩) } := by
  have hi' : (s.fibers.modify f fun _ => atRest f y)[i]? = some (atRest i y') := by
    rw [Array.getElem?_modify, if_neg hfi, hi]
  refine (giveAway hh hs hr ho rfl rfl hme hd hz).trans (Takes.trans (Takes.goOn rfl
    ((Function.update_of_ne hr ..).trans (Function.update_self ..)) rfl rfl rfl rfl rfl hi' rfl
    hr.symm (Function.update_self ..) (Nat.le_sub_of_add_le hd)) ?_ rfl) rfl
  rw [receive_vacant]
  · refine Takes.ends (Takes.answerPastHub rfl hheld) ?_
    rw [modify_congr (v := fun _ => atPlay) hi' rfl]
    simp [rallyHub, Function.update_comm hr, Nat.sub_sub, underPlayer, court]
    rfl
  · exact hp

theorem toMain (hh : s.hub = rallyHub current true T holders) (hheld : 2 ≤ holders)
    (hs : s.stack = .task (.switch 0 0 (.ok a)) :: .task (.leaveHub 0) :: .task (.rally y) ::
      underPlayer current f u)
    (hr : 0 ≠ current) (ho : s.object 0 = some ⟨c, .greenlet (mainAt id .suspended)⟩)
    (hme : s.object current = some ⟨d, .greenlet (playerOn id' f .running)⟩) (hd : 3 ≤ d)
    (hz : s.fibers[f]? = some atPlay) (hp : s.pending = .vacant) :
    Takes (court n) 15 s { s with
      stack := [.task (.answer (.ok a)), .task (.rally u), .task .exitThread]
      hub := rallyHub 0 false { T with switches := T.switches + 1 } (holders - 1)
      fibers := s.fibers.modify f fun _ => atRest f y
      object := Function.update
        (Function.update s.object current (some ⟨d - 2, .greenlet (playerOn id' f .suspended)⟩)) 0
          (some ⟨c + 1, .greenlet (mainAt id .running)⟩) } := by
  refine (giveAway hh hs hr ho rfl rfl hme hd hz).trans (Takes.trans (Takes.backAtMain rfl
    ((Function.update_of_ne hr ..).trans (Function.update_self ..)) rfl rfl rfl (Nat.le_add_left ..)
    hr.symm (Function.update_self ..) (Nat.le_sub_of_add_le hd)) ?_ rfl) rfl
  rw [receive_vacant]
  · refine Takes.ends (Takes.answerPastHub rfl hheld) ?_
    simp [rallyHub, Function.update_comm hr, Nat.sub_sub, underMain]
    rfl
  · exact hp

theorem fromMain (hh : s.hub = rallyHub 0 false T holders)
    (hs : s.stack = .task (.switch 0 r p) :: underMain u) (hr : r ≠ 0)
    (ho : s.object r = some ⟨c, .greenlet (playerOn id i .suspended)⟩)
    (hme : s.object 0 = some ⟨d, .greenlet (mainAt id' .running)⟩) (hd : 2 ≤ d)
    (hi : s.fibers[i]? = some (atRest i y')) :
    Takes (court n) 8 s (Snapshot.receive p { s with
      stack := .task (.leaveHub 0) :: .task (.rally y') :: underPlayer r i u
      hub := rallyHub r true { T with switches := T.switches + 1 } holders
      fibers := s.fibers.modify i fun _ => atPlay
      object := Function.update
        (Function.update s.object 0 (some ⟨d - 1, .greenlet (mainAt id' .suspended)⟩)) r
          (some ⟨c + 2, .greenlet (playerOn id i .running)⟩) }) := by
  have h₁ := Takes.drive (K := court n) (s := s) hs ho (by rw [hh]; rfl) (by rw [hh]; rfl)
    (by rw [hh]; rfl) rfl (by rw [hh]; exact hr) (by rw [hh]; rfl) (by rw [hh]; rfl)
    (by rw [hh]; rfl)
  rw [hh] at h₁
  refine h₁.trans (Takes.ends (Takes.goOn (n := d) (m := mainAt id' .running) rfl
    (Function.update_self ..) rfl rfl rfl rfl rfl hi rfl hr.symm
    ((Function.update_of_ne hr.symm ..).trans hme) hd) (congrArg (Snapshot.receive p) ?_)) rfl
  simp [rallyHub, underPlayer, court, Snapshot.setStack, Snapshot.setHub, Snapshot.setObject,
    Function.update_comm hr]
  exact ⟨modify_congr hi rfl, rfl⟩

end

section

variable {N : Option Object} {hub : Hub} {M Q P : Object} {lines : List String}
  {l : List (Item Task)}

theorem Court.setStack (h : Court N hub M Q P lines s) : Court N hub M Q P lines (s.setStack l) :=
  { h with }

theorem Court.alloc (h : Court N hub M Q P lines s) (v : Value) :
    Court N hub M Q P lines (s.alloc v) where
  hub := h.hub
  main := (Function.update_of_ne (Nat.ne_of_lt (Nat.lt_trans (by decide) h.size)) ..).trans h.main
  pong := (Function.update_of_ne (Nat.ne_of_lt (Nat.lt_trans (by decide) h.size)) ..).trans h.pong
  ping := (Function.update_of_ne (Nat.ne_of_lt (Nat.lt_trans (by decide) h.size)) ..).trans h.ping
  number := (Function.update_of_ne (Nat.ne_of_lt h.size) ..).trans h.number
  size := Nat.lt_succ_of_lt h.size
  pending := h.pending
  lock := h.lock
  printed := h.printed

theorem Court.call {current : Ref} {onFiber : Bool} {T : Stats} {holders : Nat} {p : Payload}
    {y : Rally} (h : Court N (rallyHub current onFiber T holders) M Q P lines s) :
    Court N (rallyHub current onFiber T (holders + 1)) M Q P lines (s.call 0 r p y) :=
  { h with
    hub := by
      rw [Snapshot.call, h.hub]
      rfl }

theorem Court.print (h : Court N hub M Q P lines s) (line : String) :
    Court N hub M Q P (line :: lines) (s.print line) :=
  { h with printed := congrArg (line :: ·) h.printed }

theorem Ball.fresh (y : Int64) (h : 3 < s.size) : Ball s.size y.toInt (s.alloc (.i64 y)) :=
  ⟨⟨y, Function.update_self .., rfl⟩, Nat.lt_succ_self _, h⟩

end

theorem toInt_succ {x n : Int64} (h : x.toInt < n.toInt) : (x + 1).toInt = x.toInt + 1 := by
  have hlo := x.le_toInt
  have hhi := n.toInt_lt
  rw [Int64.toInt_add]
  exact Int.bmod_eq_of_le (by simp; omega) (by simp; omega)

theorem toInt_pred {x : Int64} (h : 0 < x.toInt) : (x - 1).toInt = x.toInt - 1 := by
  have hhi := x.toInt_lt
  rw [Int64.toInt_sub]
  exact Int.bmod_eq_of_le (by simp; omega) (by simp; omega)

theorem not_le_zero {x : Int64} (h : 0 < x.toInt) : ¬ x ≤ 0 := by
  rw [Int64.le_iff_toInt_le]
  simpa using h

theorem Opening.serve (h : Opening V n s) (hn : 0 < n.toInt) :
    ∃ t, Takes (court n) 13 s t ∧ Hitting V n 0 t := by
  let s₁ := ((s.setStack (underPlayer 2 0 waits)).alloc (.i64 0)).call 0 1 (.ok (.one s.size))
    (.served 1 (.one 3) n (n - 1) 0)
  have h₁ : Takes (court n) 1 s s₁ := Takes.serve rfl h.stack (not_le_zero hn)
  have hc : Court (quota n) (rallyHub 2 true { switches := 1, started := 1 } 3)
      ⟨5, .greenlet (mainAt V.main .suspended)⟩ ⟨2, .greenlet (newcomer V.pong (.pong 0))⟩
      ⟨3, .greenlet (playerOn V.ping 0 .running)⟩ (trail 0) s₁ :=
    (h.toCourt.setStack.alloc _).call
  have hb : Ball s.size 0 s₁ := (Ball.fresh 0 h.size).keep rfl (Nat.le_refl _)
  have hf : s₁.fibers = #[atPlay] := h.fibers
  have h₂ := toNewcomer (n := n) (s := s₁) (r := 1) (f := 0) hc.hub rfl (by decide) hc.pong hc.ping
    (Nat.le_refl 3) (by rw [hf]; rfl)
  refine ⟨_, h₁.trans (h₂.trans (Takes.runPong rfl) rfl) rfl, {
    hub := rfl
    main := by simp [hc.main]
    pong := by simp [hf]
    ping := by simp
    number := by simp [hc.number]
    size := hc.size
    pending := hc.pending
    lock := hc.lock
    printed := hc.printed
    stack := ⟨s.size, by simp [Snapshot.push, Snapshot.setStack, hf], ?_⟩
    pingFiber := ⟨n - 1, 0, by simp [hf], by simp [toInt_pred hn]⟩
    pongFiber := by simp [hf] }⟩
  refine hb.keep ?_ (Nat.le_refl _)
  simp [hb.ne_pong.symm, hb.ne_ping.symm]

theorem Serving.serve (h : Serving V n k s) (hk : k < n.toInt) :
    ∃ t, Takes (court n) 19 s t ∧ Hitting V n k t := by
  obtain ⟨left, ball, hs, hleft, hball⟩ := h.stack
  obtain ⟨b, x, hpong, hb⟩ := h.pongFiber
  have hpos : 0 < left.toInt := by omega
  let s₁ := ((s.setStack (underPlayer 2 0 waits)).alloc (.i64 ball)).call 0 1 (.ok (.one s.size))
    (.served 1 (.one 3) n (left - 1) ball)
  have h₁ : Takes (court n) 1 s s₁ := Takes.serve rfl hs (not_le_zero hpos)
  have hc : Court (quota n) (rallyHub 2 true { switches := 3 * k + 1, started := 2 } 4)
      ⟨5, .greenlet (mainAt V.main .suspended)⟩ ⟨2, .greenlet (playerOn V.pong 1 .suspended)⟩
      ⟨3, .greenlet (playerOn V.ping 0 .running)⟩ (trail k) s₁ :=
    (h.toCourt.setStack.alloc _).call
  have hnew : Ball s.size k s₁ := by
    rw [← hball]
    exact (Ball.fresh ball h.size).keep rfl (Nat.le_refl _)
  have hold : Ball b x s₁ := by
    refine hb.keep ?_ (Nat.le_succ _)
    exact Function.update_of_ne (Nat.ne_of_lt hb.made) ..
  have h₂ := toPlayer (n := n) (s := s₁) (r := 1) (f := 0) hc.hub (by decide) rfl (by decide)
    hc.pong hc.ping (Nat.le_refl 3) h.pingFiber hpong (by decide) hc.pending
  have h₃ := h₂.trans (Takes.hitAgain rfl) rfl
  refine ⟨_, h₁.trans (h₃.trans (Ball.drop (x := x) (r := b) ?_ rfl hc.lock) rfl) rfl, {
    hub := rfl
    main := by simp [hc.main, hb.ne_main]
    pong := by simp [hb.ne_pong]
    ping := by simp [hb.ne_ping]
    number := by simp [hc.number, hb.ne_rounds]
    size := hc.size
    pending := hc.pending
    lock := hc.lock
    printed := hc.printed
    stack := ⟨s.size, rfl, hnew.keep ?_ (Nat.le_refl _)⟩
    pingFiber := ⟨left - 1, ball, ?_, by rw [toInt_pred hpos]; omega⟩
    pongFiber := ?_ }⟩
  · exact hold.keep (by simp [hb.ne_pong.symm, hb.ne_ping.symm]) (Nat.le_refl _)
  · simp [hnew.ne_pong.symm, hnew.ne_ping.symm, Nat.ne_of_gt hb.made]
  · simp [Array.getElem?_modify, show s₁.fibers[0]? = _ from h.pingFiber]
  · simp [Array.getElem?_modify, show s₁.fibers[1]? = _ from hpong]

theorem Hitting.hit (h : Hitting V n k s) (hk : k < n.toInt) :
    ∃ t, Takes (court n) 16 s t ∧ Relaying V n k t := by
  obtain ⟨c, hs, hb⟩ := h.stack
  obtain ⟨y, hy, hyk⟩ := hb.object
  obtain ⟨left, ball, hping, hleft⟩ := h.pingFiber
  let s₁ := ((s.setStack (underPlayer 1 1 waits)).alloc (.i64 (y + 1))).call 0 0 (.ok (.one s.size))
    (.hitBack 0 (.one c))
  have h₁ : Takes (court n) 1 s s₁ := by
    refine Takes.hit rfl hs hy ?_ (hyk ▸ hk)
    rw [hyk]
    exact Int.natCast_nonneg k
  have hc : Court (quota n) (rallyHub 1 true { switches := 3 * k + 2, started := 2 } 4)
      ⟨5, .greenlet (mainAt V.main .suspended)⟩ ⟨4, .greenlet (playerOn V.pong 1 .running)⟩
      ⟨1, .greenlet (playerOn V.ping 0 .suspended)⟩ (trail k) s₁ :=
    (h.toCourt.setStack.alloc _).call
  have hnew : Ball s.size (k + 1) s₁ := by
    have hy' : (y + 1).toInt = k + 1 := by rw [toInt_succ (n := n) (by omega), hyk]
    rw [← hy']
    exact (Ball.fresh (y + 1) h.size).keep rfl (Nat.le_refl _)
  have hold : Ball c k s₁ := by
    refine hb.keep ?_ (Nat.le_succ _)
    exact Function.update_of_ne (Nat.ne_of_lt hb.made) ..
  have h₂ := toMain (n := n) (s := s₁) (f := 1) hc.hub (by decide) rfl (by decide) hc.main
    hc.pong (by decide) h.pongFiber hc.pending
  refine ⟨_, h₁.trans h₂ rfl, {
    hub := rfl
    main := by simp
    pong := by simp
    ping := by simp [hc.ping]
    number := by simp [hc.number]
    size := hc.size
    pending := hc.pending
    lock := hc.lock
    printed := hc.printed
    balls := ⟨s.size, c, rfl, hnew.keep ?_ (Nat.le_refl _), ?_, hold.keep ?_ (Nat.le_refl _),
      Nat.ne_of_gt hb.made⟩
    pingFiber := ⟨left, ball, ?_, hleft⟩ }⟩
  · simp [hnew.ne_main.symm, hnew.ne_pong.symm]
  · simp [Array.getElem?_modify, show s₁.fibers[1]? = _ from h.pongFiber]
  · simp [hb.ne_main.symm, hb.ne_pong.symm]
  · simp [Array.getElem?_modify, show s₁.fibers[0]? = _ from hping]

theorem Relaying.pass (h : Relaying V n k s) :
    ∃ t, Takes (court n) 15 s t ∧ Serving V n (k + 1) t := by
  obtain ⟨d, b, hs, hd, hpong, hb, hdb⟩ := h.balls
  obtain ⟨left, ball, hping, hleft⟩ := h.pingFiber
  obtain ⟨y, hy, hyk⟩ := hd.object
  let s₁ := ((s.setStack [.task .exitThread]).print ("main relays " ++ Rally.shown (some y))).call 0
    2 (.ok (.one d)) waits
  have h₁ : Takes (court n) 1 s s₁ := Takes.relay rfl hs hy h.ping rfl
  have hline : "main relays " ++ Rally.shown (some y) = relayLine k :=
    congrArg (fun x => "main relays " ++ inSome x) hyk
  have hc : Court (quota n) (rallyHub 0 false { switches := 3 * k + 3, started := 2 } 4)
      ⟨6, .greenlet (mainAt V.main .running)⟩ ⟨2, .greenlet (playerOn V.pong 1 .suspended)⟩
      ⟨1, .greenlet (playerOn V.ping 0 .suspended)⟩ (trail (k + 1)) s₁ := by
    rw [trail_succ, ← hline]
    exact (h.toCourt.setStack.print _).call
  have h₂ := fromMain (n := n) (s := s₁) (u := waits) hc.hub rfl (by decide) hc.ping hc.main
    (by decide) hping
  rw [receive_vacant (by exact hc.pending)] at h₂
  have h₃ := h₂.trans (Takes.answerPastHub rfl (Nat.le_add_left 2 2)) rfl
  have hmoved (o o' : Option Object) :
      Function.update (Function.update s₁.object 0 o) 2 o' d = s.object d := by
    rw [Function.update_of_ne hd.ne_ping.symm, Function.update_of_ne hd.ne_main.symm]
    rfl
  refine ⟨_, h₁.trans (h₃.trans (Takes.trans (Takes.serveAgain rfl ((hmoved ..).trans hy))
    (Ball.drop (x := k + 1) (r := d) (hd.keep (hmoved ..) (Nat.le_refl _)) rfl hc.lock)
      rfl) rfl) rfl, {
    hub := rfl
    main := by simp [hd.ne_main]
    pong := by simp [hc.pong, hd.ne_pong]
    ping := by simp [hd.ne_ping]
    number := by simp [hc.number, hd.ne_rounds]
    size := hc.size
    pending := hc.pending
    lock := hc.lock
    printed := hc.printed
    stack := ⟨left, y, rfl, by omega, by omega⟩
    pingFiber := ?_
    pongFiber := ⟨b, k, ?_, hb.keep ?_ (Nat.le_refl _)⟩ }⟩
  · simp [Array.getElem?_modify, show s₁.fibers[0]? = _ from hping]
  · simp [Array.getElem?_modify, show s₁.fibers[1]? = _ from hpong]
  · simp [hdb.symm, hb.ne_ping.symm, hb.ne_main.symm]
    rfl

theorem Hitting.comesBack (h : Hitting V n k s) (hk : k < n.toInt) :
    ∃ t, Takes (court n) 31 s t ∧ Serving V n (k + 1) t := by
  obtain ⟨t, ht, hr⟩ := h.hit hk
  obtain ⟨u, hu, hs⟩ := hr.pass
  exact ⟨u, ht.trans hu rfl, hs⟩

theorem Serving.rounds (h : Serving V n k s) {m : Nat} (hm : (k + m : Nat) ≤ n.toInt) :
    ∃ t, Takes (court n) (50 * m) s t ∧ Serving V n (k + m) t := by
  induction m with
  | zero => exact ⟨s, .refl s, h⟩
  | succ m ih =>
    obtain ⟨t, ht, hs⟩ := ih (by omega)
    obtain ⟨u, hu, hhit⟩ := hs.serve (by omega)
    obtain ⟨v, hv, hs'⟩ := hhit.comesBack (by omega)
    exact ⟨v, (ht.trans (hu.trans hv rfl) rfl).within (by omega), hs'⟩

/-- All the rounds of a rally that has any. -/
theorem Opening.rounds (h : Opening V n s) (hn : 0 < n.toInt) :
    ∃ t, Takes (court n) (50 * n.toInt.toNat) s t ∧ Serving V n n.toInt.toNat t := by
  obtain ⟨m, hm⟩ : ∃ m : Nat, n.toInt = (1 + m : Nat) := ⟨n.toInt.toNat - 1, by omega⟩
  obtain ⟨t, ht, hhit⟩ := h.serve hn
  obtain ⟨u, hu, hs⟩ := hhit.comesBack hn
  obtain ⟨v, hv, hs'⟩ := hs.rounds (m := m) (by omega)
  rw [hm, Int.toNat_natCast]
  refine ⟨v, (ht.trans (hu.trans hv rfl) rfl).within (by omega), ?_⟩
  rwa [Nat.zero_add] at hs'

end World

end Switchyard
