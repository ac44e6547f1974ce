import Switchyard.Proofs.Relay.Ending
import Switchyard.Proofs.Rally.Rounds

/-!
# The end of a rally

Ping hands over the ball with the number of rounds, and is through. The original stack stops pong,
which waits for a ball or has not run at all, and drops what it owns.
-/

namespace Switchyard

namespace World

/-- A player that is through. -/
def pastPlay (id : GreenletId) : Greenlet :=
  ⟨id, 1, false, 0, .dead, some 0, none, none, none⟩

def spent : Fiber Task :=
  { atPlay.settle with phase := .taken, handles := 0, cancelling := true }

def finalLine (x n : Int) : String :=
  "final ball: " ++ inSome x ++ " after " ++ inSome n ++ " rounds"

variable (V : Names) (n : Int64) (Q : Greenlet) (T : Stats) (holders : Nat) (lines : List String)

/-- Ping is to serve, and no rounds are left. The ball is `x`, and pong is `Q`. -/
structure Through (x : Int) (s : Snapshot) : Prop
    extends Court (quota n) (rallyHub 2 true T holders)
      ⟨5, .greenlet (mainAt V.main .suspended)⟩ ⟨2, .greenlet Q⟩
      ⟨3, .greenlet (playerOn V.ping 0 .running)⟩ lines s where
  stack : ∃ left ball, s.stack = .task (.rally (.serve 1 (.one 3) n left ball)) ::
    underPlayer 2 0 waits ∧ left.toInt ≤ 0 ∧ ball.toInt = x
  pingFiber : s.fibers[0]? = some atPlay

/-- The original stack is to stop pong. It has the ball `d` and the number of rounds `e`. -/
structure Stopping (x : Int) (d e : Ref) (s : Snapshot) : Prop
    extends Court none (rallyHub 0 false T holders) ⟨6, .greenlet (mainAt V.main .running)⟩
      ⟨1, .greenlet Q⟩ ⟨1, .greenlet (pastPlay V.ping)⟩ lines s where
  stack : s.stack = .task (.switch 0 1 (.error .exit)) ::
    underMain (.stopped 0 1 2 (.oneAnd d "rounds" e))
  ball : Ball d x s
  rounds : Ball e n.toInt s
  order : d < e

/-- Pong is stopped. -/
structure PongStopped (x : Int) (d e : Ref) (s : Snapshot) : Prop
    extends Court none (rallyHub 0 false T 1) ⟨5, .greenlet (mainAt V.main .running)⟩
      ⟨1, .greenlet (pastPlay V.pong)⟩ ⟨1, .greenlet (pastPlay V.ping)⟩ lines s where
  stack : s.stack = [.task (.answer (.ok .empty)),
    .task (.rally (.stopped 0 1 2 (.oneAnd d "rounds" e))), .task .exitThread]
  ball : Ball d x s
  rounds : Ball e n.toInt s
  order : d < e

variable {V n Q T holders lines} {s t : Snapshot} {r : Ref} {x : Int} {k : Nat}

section

variable {f : FiberId} {u : Rally} {c d : Nat} {id id' : GreenletId} {p : Payload}

theorem playerEnds (hh : s.hub = rallyHub r true T holders) (hheld : 0 < holders)
    (hs : s.stack = .task (.result p) :: underPlayer r f u) (hr : r ≠ 0)
    (ho : s.object r = some ⟨c, .greenlet (playerOn id f .running)⟩) (hc : 3 ≤ c)
    (hm : s.object 0 = some ⟨d, .greenlet (mainAt id' .suspended)⟩)
    (hz : s.fibers[f]? = some atPlay) :
    Takes (court n) 14 s (Snapshot.receive (exitToEmpty p) { s with
      stack := underMain u
      hub := rallyHub 0 false { T with switches := T.switches + 1, finished := T.finished + 1 }
        holders
      fibers := s.fibers.modify f fun _ => spent
      object := Function.update
        (Function.update s.object r (some ⟨c - 2, .greenlet (pastPlay id)⟩)) 0
          (some ⟨d + 1, .greenlet (mainAt id' .running)⟩) }) := by
  obtain ⟨stack, lock, fibers, hub, object, size, handles, pending, ids, fuel, printed⟩ := s
  subst hh hs
  refine Takes.trans (Takes.result rfl hz rfl hheld rfl) ?_ rfl
  refine Takes.trans (Takes.finish (x := atPlay) rfl hz rfl rfl ho (Nat.le_of_succ_le hc) rfl rfl hr
    hm rfl rfl rfl) ?_ rfl
  refine Takes.ends (Takes.backAtMain rfl ((Function.update_of_ne hr.symm ..).trans
    (Function.update_self ..)) rfl rfl rfl (Nat.le_add_left ..) hr (Function.update_self ..)
    (Nat.le_sub_of_add_le hc)) (congrArg (Snapshot.receive _) ?_)
  simp [rallyHub, Function.update_comm hr, Nat.sub_sub, Snapshot.setHub, Snapshot.setStack]
  exact ⟨modify_congr hz rfl, rfl⟩

end

section

variable {d e : Ref}

private theorem handIn (h : Court (quota n) (rallyHub 2 true T holders)
      ⟨5, .greenlet (mainAt V.main .suspended)⟩ ⟨2, .greenlet Q⟩
      ⟨3, .greenlet (playerOn V.ping 0 .running)⟩ lines s)
    (hheld : 2 ≤ holders) (hz : s.fibers[0]? = some atPlay)
    (hs : s.stack = .task (.drop 3) :: .task (.drop 1) ::
      .task (.result (.ok (.oneAnd d "rounds" e))) :: underPlayer 2 0 waits) :
    ∃ t, Takes (court n) 20 s t ∧ Court none
        (rallyHub 0 false { T with switches := T.switches + 1, finished := T.finished + 1 }
          (holders - 1))
        ⟨6, .greenlet (mainAt V.main .running)⟩ ⟨1, .greenlet Q⟩
        ⟨1, .greenlet (pastPlay V.ping)⟩ lines t ∧
      t.stack = [.task (.answer (.ok (.oneAnd d "rounds" e))), .task (.rally waits),
        .task .exitThread] ∧
      t.fibers = s.fibers.modify 0 (fun _ => spent) ∧ ∀ b x, Ball b x s → Ball b x t := by
  have h₁ := Takes.dropLast (K := court n) (m := ⟨1, 1⟩) hs h.number (Nat.le_refl 1) rfl
    (by rw [h.lock]; rfl) (by rw [h.lock]; rfl)
  let object := Function.update (Function.update s.object 3 none) 1 (some ⟨1, .greenlet Q⟩)
  have hping : object 2 = some ⟨3, .greenlet (playerOn V.ping 0 .running)⟩ := by
    simp [object, h.ping]
  have hmain : object 0 = some ⟨5, .greenlet (mainAt V.main .suspended)⟩ := by
    simp [object, h.main]
  have h₂ := h₁.trans (Takes.drop (r := 1) (o := ⟨2, .greenlet Q⟩) rfl
    (by simp [h.pong]) (Nat.le_refl 2)) rfl
  have h₃ := h₂.trans (playerEnds h.hub (Nat.lt_of_succ_lt hheld) rfl (by decide) hping
    (Nat.le_refl 3) hmain hz) rfl
  rw [show exitToEmpty (.ok (.oneAnd d "rounds" e)) = .ok (.oneAnd d "rounds" e) from rfl,
    receive_vacant (by exact h.pending)] at h₃
  refine ⟨_, h₃.trans (Takes.answerPastHub rfl hheld) rfl, {
    hub := rfl
    main := by simp
    pong := by simp
    ping := by simp
    number := by simp
    size := h.size
    pending := h.pending
    lock := h.lock
    printed := h.printed }, rfl, rfl, fun b x hb => hb.keep ?_ (Nat.le_refl _)⟩
  simp [hb.ne_main.symm, hb.ne_pong.symm, hb.ne_ping.symm, hb.ne_rounds.symm]

end

theorem Through.stops (h : Through V n Q T holders lines x s) (hheld : 2 ≤ holders) :
    ∃ t, Takes (court n) 22 s t ∧ t.fibers[1]? = s.fibers[1]? ∧
      (∀ b y, Ball b y s → Ball b y t ∧ b < s.size) ∧
      Stopping V n Q { T with switches := T.switches + 1, finished := T.finished + 1 } holders
        (finalLine x n.toInt :: "" :: lines) x s.size (s.size + 1) t := by
  obtain ⟨left, ball, hs, hleft, hball⟩ := h.stack
  let s₁ := (((s.setStack (underPlayer 2 0 waits)).alloc (.i64 ball)).alloc (.i64 n)).push
    [.drop 3, .drop 1, .result (.ok (.oneAnd s.size "rounds" (s.size + 1)))]
  have hdone : left ≤ 0 := by
    rw [Int64.le_iff_toInt_le]
    exact hleft
  have h₁ : Takes (court n) 1 s s₁ := Takes.serveNone hs hdone
  have hc : Court (quota n) (rallyHub 2 true T holders) ⟨5, .greenlet (mainAt V.main .suspended)⟩
      ⟨2, .greenlet Q⟩ ⟨3, .greenlet (playerOn V.ping 0 .running)⟩ lines s₁ :=
    ((h.toCourt.setStack.alloc _).alloc _).setStack
  have hold (b : Ref) (y : Int) (hb : Ball b y s) : Ball b y s₁ := by
    refine hb.keep ?_ (Nat.le_add_right _ 2)
    exact (Function.update_of_ne (Nat.ne_of_lt (Nat.lt_succ_of_lt hb.made)) ..).trans
      (Function.update_of_ne (Nat.ne_of_lt hb.made) ..)
  have hnew : Ball s.size x s₁ := by
    rw [← hball]
    exact (Ball.fresh ball h.size).keep
      (Function.update_of_ne (Nat.ne_of_lt (Nat.lt_succ_self _)) ..) (Nat.le_succ _)
  have hrounds : Ball (s.size + 1) n.toInt s₁ :=
    (Ball.fresh (s := s.alloc (.i64 ball)) n (Nat.lt_succ_of_lt h.size)).keep rfl (Nat.le_refl _)
  obtain ⟨s₂, h₂, hc₂, hs₂, hf, hkeep⟩ := handIn hc hheld h.pingFiber rfl
  obtain ⟨y, hy, hyx⟩ := (hkeep _ _ hnew).object
  obtain ⟨z, hz, hzn⟩ := (hkeep _ _ hrounds).object
  have h₃ := Takes.stop (K := court n) rfl hs₂ hy hz hc₂.ping rfl
  have hc₃ := (((hc₂.setStack (l := [.task .exitThread])).print "").print ("final ball: " ++
    Rally.shown (some y) ++ " after " ++ Rally.shown (some z) ++ " rounds")).call (r := 1)
      (p := .error .exit) (y := .stopped 0 1 2 (.oneAnd s.size "rounds" (s.size + 1)))
  have hline : "final ball: " ++ Rally.shown (some y) ++ " after " ++ Rally.shown (some z) ++
      " rounds" = finalLine x n.toInt := by
    rw [finalLine, ← hyx, ← hzn]
    rfl
  rw [hline, Nat.sub_add_cancel (Nat.le_of_succ_le hheld)] at hc₃
  refine ⟨_, h₁.trans (h₂.trans h₃ rfl) rfl, ?_, fun b y hb =>
    ⟨(hkeep _ _ (hold b y hb)).keep rfl (Nat.le_refl _), hb.made⟩, {
      toCourt := by rw [hline]; exact hc₃
      stack := rfl
      ball := (hkeep _ _ hnew).keep rfl (Nat.le_refl _)
      rounds := (hkeep _ _ hrounds).keep rfl (Nat.le_refl _)
      order := Nat.lt_succ_self _ }⟩
  change s₂.fibers[1]? = _
  rw [hf, Array.getElem?_modify]
  rfl

theorem receive_error {e : Failure} (hp : s.pending = .vacant) :
    s.receive (.error e) = { s.push [.answer (.error (.propagated e))] with
      object := Function.update s.object s.size (some ⟨1, .failure e⟩)
      size := s.size + 1
      pending := .full s.size } := by
  change (s.push _).register e = _
  unfold Snapshot.register
  rw [show (s.push [.answer (.error (.propagated e))]).pending = .vacant from hp]
  rfl

section

variable {b f : Ref} {u : Rally} {y : Int}

private theorem quits (h : s.hub = rallyHub 1 true T holders) (hheld : 0 < holders)
    (hl : s.lock = {})
    (hs : s.stack = .task (.answer (.error (.propagated .exit))) ::
      .task (.rally (.hitBack 0 (.one b))) :: underPlayer 1 1 u)
    (hb : Ball b y s) (ho : s.object 1 = some ⟨3, .greenlet (playerOn V.pong 1 .running)⟩)
    (hm : s.object 0 = some ⟨5, .greenlet (mainAt V.main .suspended)⟩)
    (hz : s.fibers[1]? = some atPlay) (hp : s.pending = .full f) :
    Takes (court n) 19 s { s with
      stack := .task (.drop f) :: .task (.answer (.ok .empty)) :: underMain u
      hub := rallyHub 0 false { T with switches := T.switches + 1, finished := T.finished + 1 }
        holders
      pending := .vacant
      fibers := s.fibers.modify 1 fun _ => spent
      object := Function.update (Function.update (Function.update s.object b none)
        1 (some ⟨1, .greenlet (pastPlay V.pong)⟩)) 0
          (some ⟨5, .greenlet (mainAt V.main .running)⟩) } := by
  have h₁ : Takes (court n) 1 s _ := Takes.hitNoMore hs
  have h₂ := h₁.trans (Ball.drop (hb.keep rfl (Nat.le_refl _)) rfl hl) rfl
  have h₃ := h₂.trans (Takes.drop (r := 0) (o := ⟨5, .greenlet (mainAt V.main .suspended)⟩) rfl
    (by simp [hb.ne_main, hm]) (Nat.le_add_left 2 3)) rfl
  let object := Function.update (Function.update s.object b none) 0
    (some ⟨4, .greenlet (mainAt V.main .suspended)⟩)
  have ho₃ : object 1 = some ⟨3, .greenlet (playerOn V.pong 1 .running)⟩ := by
    simp [object, hb.ne_pong, ho]
  have hm₃ : object 0 = some ⟨4, .greenlet (mainAt V.main .suspended)⟩ := Function.update_self ..
  have h₄ := h₃.trans (playerEnds (r := 1) h hheld rfl (by decide) ho₃ (Nat.le_refl 3) hm₃ hz) rfl
  refine h₄.ends ?_
  rw [show exitToEmpty (.error (.ofError (.propagated .exit))) = .ok .empty from rfl]
  unfold Snapshot.receive
  simp [hp, Snapshot.setPending, Snapshot.setObject, Snapshot.setStack, Snapshot.push]
  rw [Function.update_comm (by decide : (0 : Ref) ≠ 1), Function.update_idem]

end

theorem Stopping.stopsWaiting {d e b : Ref} {y : Int}
    (h : Stopping V n (playerOn V.pong 1 .suspended) T 3 lines x d e s)
    (hz : s.fibers[1]? = some (atRest 1 (.hitBack 0 (.one b)))) (hb : Ball b y s) (hbd : b < d) :
    ∃ t, Takes (court n) 34 s t ∧ PongStopped V n
      { T with switches := T.switches + 2, finished := T.finished + 1 } lines x d e t := by
  have h₁ := fromMain (n := n) (p := .error .exit) h.hub h.stack (by decide) h.pong h.main
    (by decide) hz
  rw [receive_error (by exact h.pending)] at h₁
  have h₂ := h₁.trans (Takes.answerPastHub rfl (Nat.le_add_left 2 1)) rfl
  have hm : 0 ≠ s.size := Nat.ne_of_lt (Nat.lt_trans (by decide) h.size)
  have hq : 1 ≠ s.size := Nat.ne_of_lt (Nat.lt_trans (by decide) h.size)
  have hp : 2 ≠ s.size := Nat.ne_of_lt (Nat.lt_trans (by decide) h.size)
  let object := Function.update (Function.update (Function.update s.object 0
    (some ⟨5, .greenlet (mainAt V.main .suspended)⟩)) 1
      (some ⟨3, .greenlet (playerOn V.pong 1 .running)⟩)) s.size (some ⟨1, .failure .exit⟩)
  have hold {r : Ref} {z : Int} (hr : Ball r z s) : object r = s.object r := by
    simp [object, hr.ne_main.symm, hr.ne_pong.symm, Nat.ne_of_lt hr.made]
  have hpong : object 1 = some ⟨3, .greenlet (playerOn V.pong 1 .running)⟩ := by
    simp [object, hq]
  have hmain : object 0 = some ⟨5, .greenlet (mainAt V.main .suspended)⟩ := by
    simp [object, hm]
  have hz₂ : (s.fibers.modify 1 fun _ => atPlay)[1]? = some atPlay := by
    rw [Array.getElem?_modify, if_pos rfl, hz]
    rfl
  have h₃ := h₂.trans (quits (b := b) rfl (Nat.succ_pos 1) h.lock rfl
    (hb.keep (hold hb) (Nat.le_succ _)) hpong hmain hz₂ rfl) rfl
  let object' := Function.update (Function.update (Function.update object b none) 1
    (some ⟨1, .greenlet (pastPlay V.pong)⟩)) 0 (some ⟨5, .greenlet (mainAt V.main .running)⟩)
  have hfailure : object' s.size = some ⟨1, .failure .exit⟩ := by
    simp [object', object, hm.symm, hq.symm, Nat.ne_of_gt hb.made]
  have hlock : s.lock.ensure? 1 = some ⟨1, 1⟩ := by rw [h.lock]; rfl
  have hrelease : (⟨1, 1⟩ : Lock).release = s.lock := by rw [h.lock]; rfl
  have h₄ := h₃.trans
    (Takes.dropLast (r := s.size) rfl hfailure (Nat.le_refl 1) rfl hlock hrelease) rfl
  have h₅ := h₄.trans (Takes.answerPastHub rfl (Nat.le_refl 2)) rfl
  have hkept {r : Ref} {z : Int} (hr : Ball r z s) (hrb : b < r) :
      Function.update object' s.size none r = s.object r := by
    rw [← hold hr]
    simp [object', hr.ne_main.symm, hr.ne_pong.symm, Nat.ne_of_lt hr.made, Nat.ne_of_gt hrb]
  refine ⟨_, h₅, {
    hub := rfl
    main := by simp [hm]
    pong := by simp [hq]
    ping := by simp [hp, hb.ne_ping, h.ping]
    number := by simp [Nat.ne_of_lt h.size, hb.ne_rounds, h.number]
    size := Nat.lt_succ_of_lt h.size
    pending := rfl
    lock := h.lock
    printed := h.printed
    stack := rfl
    ball := h.ball.keep (hkept h.ball hbd) (Nat.le_succ _)
    rounds := h.rounds.keep (hkept h.rounds (Nat.lt_trans hbd h.order)) (Nat.le_succ _)
    order := h.order }⟩

private theorem killed {u : Rally} (h : s.hub = rallyHub 0 false T holders) (hheld : 2 ≤ holders)
    (hs : s.stack = .task (.switch 0 1 (.error .exit)) :: underMain u)
    (hq : s.object 1 = some ⟨1, .greenlet (newcomer V.pong (.pong 0))⟩)
    (hm : s.object 0 = some ⟨6, .greenlet (mainAt V.main .running)⟩) (hp : s.pending = .vacant) :
    Takes (court n) 16 s { s with
      stack := [.task (.answer (.ok .empty)), .task (.rally u), .task .exitThread]
      hub := rallyHub 0 false { T with switches := T.switches + 1 } (holders - 1)
      object := Function.update (Function.update s.object 1
        (some ⟨1, .greenlet (pastPlay V.pong)⟩)) 0
          (some ⟨5, .greenlet (mainAt V.main .running)⟩) } := by
  obtain ⟨stack, lock, fibers, hub, object, size, handles, pending, ids, fuel, printed⟩ := s
  subst h hs hp
  have hne : (1 : Ref) ≠ 0 := by decide
  refine Takes.trans (Takes.drive rfl hq rfl rfl rfl rfl hne rfl rfl rfl) ?_ rfl
  refine Takes.trans (Takes.targetKilled (c := 2) (g := newcomer V.pong (.pong 0))
    rfl rfl rfl rfl rfl) ?_ rfl
  refine Takes.trans (Takes.drop (r := 0) rfl hm (Nat.le_add_left 2 4)) ?_ rfl
  refine Takes.trans (Takes.killed (c := 2) (g := pastPlay V.pong) (q := 0) (d := 5) rfl rfl
    (Nat.le_refl 2) rfl hne rfl rfl rfl rfl) ?_ rfl
  refine Takes.trans
    (Takes.stayAtMain (c := 6) rfl rfl rfl rfl rfl rfl (Nat.le_add_left 2 4)) ?_ rfl
  rw [show exitToEmpty (.error .exit) = .ok .empty from rfl, receive_vacant rfl]
  refine Takes.ends (Takes.answerPastHub rfl hheld) ?_
  simp [Snapshot.setStack, Snapshot.setHub, Snapshot.setObject, Snapshot.push, rallyHub, underMain]
  rw [Function.update_comm hne.symm, Function.update_idem, Function.update_idem]

theorem Stopping.kills {d e : Ref}
    (h : Stopping V n (newcomer V.pong (.pong 0)) T 2 lines x d e s) :
    ∃ t, Takes (court n) 16 s t ∧
      PongStopped V n { T with switches := T.switches + 1 } lines x d e t := by
  refine ⟨_, killed h.hub (Nat.le_refl 2) h.stack h.pong h.main h.pending, {
    hub := rfl
    main := by simp
    pong := by simp
    ping := by simp [h.ping]
    number := by simp [h.number]
    size := h.size
    pending := h.pending
    lock := h.lock
    printed := h.printed
    stack := rfl
    ball := h.ball.keep ?_ (Nat.le_refl _)
    rounds := h.rounds.keep ?_ (Nat.le_refl _)
    order := h.order }⟩
  · simp [h.ball.ne_main.symm, h.ball.ne_pong.symm]
  · simp [h.rounds.ne_main.symm, h.rounds.ne_pong.symm]

/-- The original stack has dropped all that it owned. -/
structure Emptied (V : Names) (T : Stats) (lines : List String) (s : Snapshot) : Prop where
  stack : s.stack = [.task .exitThread]
  hub : s.hub = { rallyHub 0 false T 1 with nodes := [] }
  main : s.object 0 = some ⟨2, .greenlet (mainAt V.main .running)⟩
  pending : s.pending = .vacant
  lock : s.lock = {}
  printed : s.printed = (lastLines true T).reverse ++ lines

private theorem dropAll (h : s.hub = rallyHub 0 false T 1) (hl : s.lock = {})
    (hs : s.stack = [.task (.drop 2), .task (.drop 1), .task (.drop 0), .task .exitThread])
    (hm : s.object 0 = some ⟨5, .greenlet (mainAt V.main .running)⟩)
    (hq : s.object 1 = some ⟨1, .greenlet (pastPlay V.pong)⟩)
    (hp : s.object 2 = some ⟨1, .greenlet (pastPlay V.ping)⟩) :
    Takes (court n) 9 s { s with
      stack := [.task .exitThread]
      hub := { rallyHub 0 false T 1 with nodes := [] }
      object := Function.update (Function.update (Function.update s.object 2 none) 1 none) 0
        (some ⟨2, .greenlet (mainAt V.main .running)⟩) } := by
  obtain ⟨stack, lock, fibers, hub, object, size, handles, pending, ids, fuel, printed⟩ := s
  subst h hl hs
  have h₂ : (0 : Ref) ≠ 2 := by decide
  have h₁ : (0 : Ref) ≠ 1 := by decide
  refine Takes.trans (Takes.dropDead (m := ⟨1, 1⟩) rfl hp rfl rfl rfl rfl rfl rfl h₂ hm
    (Nat.le_add_left 2 3) Nat.one_pos rfl rfl) ?_ rfl
  refine Takes.trans (Takes.dropDead (m := ⟨1, 1⟩)
    (o := ⟨4, .greenlet (mainAt V.main .running)⟩) rfl hq rfl rfl rfl rfl rfl rfl h₁ rfl
    (Nat.le_add_left 2 2) Nat.one_pos rfl rfl) ?_ rfl
  refine Takes.ends (Takes.drop (o := ⟨3, .greenlet (mainAt V.main .running)⟩) rfl rfl
    (Nat.le_add_left 2 1)) ?_
  simp [Snapshot.setStack, Snapshot.setObject, rallyHub]
  rw [Function.update_comm h₂, Function.update_idem, Function.update_comm h₁, Function.update_idem]

theorem PongStopped.clears {d e : Ref} (h : PongStopped V n T lines x d e s) :
    ∃ t, Takes (court n) 16 s t ∧ Emptied V T lines t := by
  have h₁ := Takes.report (K := court n) rfl h.stack h.pong
  have h₂ := h₁.trans (Ball.drop (h.ball.keep rfl (Nat.le_refl _)) rfl h.lock) rfl
  have hrounds : Function.update s.object d none e = s.object e :=
    Function.update_of_ne (Nat.ne_of_gt h.order) ..
  have h₃ := h₂.trans (Ball.drop (h.rounds.keep hrounds (Nat.le_refl _)) rfl h.lock) rfl
  let object := Function.update (Function.update s.object d none) e none
  have hm : object 0 = some ⟨5, .greenlet (mainAt V.main .running)⟩ := by
    simp [object, h.ball.ne_main, h.rounds.ne_main, h.main]
  have hq : object 1 = some ⟨1, .greenlet (pastPlay V.pong)⟩ := by
    simp [object, h.ball.ne_pong, h.rounds.ne_pong, h.pong]
  have hp : object 2 = some ⟨1, .greenlet (pastPlay V.ping)⟩ := by
    simp [object, h.ball.ne_ping, h.rounds.ne_ping, h.ping]
  refine ⟨_, h₃.trans (dropAll h.hub h.lock rfl hm hq hp) rfl, {
    stack := rfl
    hub := rfl
    main := rfl
    pending := h.pending
    lock := h.lock
    printed := ?_ }⟩
  change (lastLines true s.hub.stats).reverse ++ s.printed = _
  rw [h.hub, h.printed]
  rfl

end World

end Switchyard
