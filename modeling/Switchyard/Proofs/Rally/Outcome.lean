import Switchyard.Proofs.Rally.Exit
import Switchyard.Rally.Play

/-!
# A whole rally

What a rally prints, for every number of rounds, and that it comes to its end.
-/

namespace Switchyard

namespace World

def opened (env : Environment) (n : Int64) : World :=
  (World.fresh env).push [.rally (.start n), .exitThread]

/-- The first thread has its hub, and the lines at the start of a rally are printed. -/
def greeted : Snapshot where
  stack := [.task .exitThread]
  lock := {}
  fibers := #[]
  hub := { thread := 1, main := 0, current := 0 }
  object := Function.update (fun _ => none) 0
    (some ⟨2, .greenlet (mainAt IdSource.start.next.1 .running)⟩)
  size := 1
  handles := .empty
  pending := .vacant
  ids := IdSource.start.next.2
  fuel := 500
  printed := trail 0

private theorem greets (env : Environment) (log : Log) (n : Int64) :
    ∃ w, World.homeHub { env, log, printed := trail 0
                         threads := #[{ stack := [.task .exitThread] }] } = (.ok 0, w) ∧
      Depicts (court n) w greeted := by
  let w₀ : World := { env, log, printed := trail 0
                      threads := #[{ stack := [.task .exitThread], touched := [.home] }] }
  let w := w₀.createHub.2.modifyThread fun t => { t with home := .full 0 }
  have hw₀ : w₀.createHub.2.Seated := ⟨Nat.one_pos, Nat.le_refl 1⟩
  have ht : w.thread = { stack := [.task .exitThread], touched := [.home], home := .full 0 } :=
    thread_modifyThread hw₀ _
  refine ⟨w, rfl, {
    active := rfl
    seated := (seated_modifyThread _).mpr hw₀
    stack := congrArg Thread.stack ht
    pending := congrArg Thread.pending ht
    home := congrArg Thread.home ht
    panicked := congrArg Thread.panicked ht
    touched := fun _ => by rw [ht]; decide
    lock := rfl
    fibers := rfl
    hubs := rfl
    object := ?_
    size := rfl
    handles := rfl
    ids := rfl
    fuel := rfl
    bodies := rfl
    printed := rfl }⟩
  funext q
  change ((w₀.alloc (.greenlet (mainAt IdSource.start.next.1 .running))).2.retain 0).object? q = _
  rw [World.retain, object?_modifyObject, object?_alloc]
  have hnone : w₀.object? q = none := by simp [World.object?, w₀]
  have hsize : w₀.heap.size = 0 := rfl
  rw [hnone, hsize]
  by_cases hq : q = 0
  · subst hq
    rfl
  · simp [hq, Ne.symm hq, greeted]

/-- The ids that are handed out first. -/
def firstNames : Names :=
  ⟨IdSource.start.next.1, IdSource.start.next.2.next.1, IdSource.start.next.2.next.2.next.1⟩

/-- The original stack is to call ping for the first time. -/
structure Calling (n : Int64) (s : Snapshot) : Prop
    extends Court (quota n) (rallyHub 0 false {} 2) ⟨6, .greenlet (mainAt firstNames.main .running)⟩
      ⟨2, .greenlet (newcomer firstNames.pong (.pong 0))⟩
      ⟨1, .greenlet (newcomer firstNames.ping (.ping 1))⟩ (trail 0) s where
  stack : s.stack = .task (.switch 0 2 (.ok (.one 3))) :: underMain waits
  fibers : s.fibers = #[]

theorem opened_next (env : Environment) (n : Int64) :
    ∃ s, Depicts (court n) (opened env n).next s ∧ Calling n s := by
  obtain ⟨w₁, he₁, h₁⟩ := greets env (({} : Log).settle env) n
  have hcur : (w₁.hub 0).current = 0 := congrArg Hub.current h₁.hub
  have h₂ := (h₁.retain (r := 0) (o := ⟨2, .greenlet (mainAt firstNames.main .running)⟩) rfl).retain
    (r := 0) (o := ⟨3, .greenlet (mainAt firstNames.main .running)⟩) rfl
  obtain ⟨w₃, he₃, h₃⟩ : ∃ w₃, ((w₁.retain 0).retain 0).createGreenlet 0 (.pong 0) none =
      (.ok 1, w₃) ∧ _ := h₂.createGreenlet (K := court n)
    (o := ⟨4, .greenlet (mainAt firstNames.main .running)⟩) rfl rfl (.pong 0)
  have h₄ := h₃.retain (r := 1) (o := ⟨1, .greenlet (newcomer firstNames.pong (.pong 0))⟩) rfl
  obtain ⟨w₅, he₅, h₅⟩ : ∃ w₅, (w₃.retain 1).createGreenlet 0 (.ping 1) none = (.ok 2, w₅) ∧ _ :=
    h₄.createGreenlet (K := court n) (o := ⟨5, .greenlet (mainAt firstNames.main .running)⟩)
      rfl rfl (.ping 1)
  obtain ⟨ha, h₆⟩ : (w₅.numberArgs n).1 = .one 3 ∧ _ := h₅.numberArgs n
  have h₇ := h₆.call rfl 2 (.ok (.one 3)) waits
  have hw : (opened env n).next = Rally.call 2 (.ok (.one 3)) waits (w₅.numberArgs n).2 := by
    have he : ((((opened env n).setStack [.task .exitThread]).print
        "=== Greenlet Ping-Pong ===").print "").homeHub = (.ok 0, w₁) := he₁
    change Rally.begin n ((opened env n).setStack [.task .exitThread]) = _
    unfold Rally.begin
    simp only [he, hcur, he₃, he₅, ha]
    rfl
  rw [hw]
  exact ⟨_, h₇, {
    hub := rfl
    main := rfl
    pong := rfl
    ping := rfl
    number := rfl
    size := Nat.le_refl 4
    pending := rfl
    lock := rfl
    printed := rfl
    stack := rfl
    fibers := rfl }⟩

variable {V : Names} {n : Int64} {s : Snapshot}

theorem Calling.opens (h : Calling n s) : ∃ t, Takes (court n) 8 s t ∧ Opening firstNames n t := by
  obtain ⟨stack, lock, fibers, hub, object, size, handles, pending, ids, fuel, printed⟩ := s
  obtain ⟨⟨rfl, hm, hq, hp, hnum, hsize, rfl, rfl, rfl⟩, rfl, rfl⟩ := h
  have hne : (2 : Ref) ≠ 0 := by decide
  have h₁ := Takes.drive (K := court n) rfl hp rfl rfl rfl rfl hne rfl rfl rfl
  have h₂ := h₁.trans (Takes.enter (c := 2) (g := newcomer firstNames.ping (.ping 1)) (n := 6)
    (m := mainAt firstNames.main .running) rfl rfl rfl rfl rfl rfl rfl hne.symm hm
      (Nat.le_add_left 2 4)) rfl
  have h₃ := h₂.trans (Takes.runPing (c := 1) (x := n) rfl hnum) rfl
  exact ⟨_, h₃, {
    hub := rfl
    main := rfl
    pong := hq
    ping := rfl
    number := hnum
    size := hsize
    pending := rfl
    lock := rfl
    printed := rfl
    stack := rfl
    fibers := rfl }⟩

/-- The counters after a rally. -/
def totals (n : Int) : Stats :=
  if 0 < n then { switches := 3 * n.toNat + 4, started := 2, finished := 2 }
  else { switches := 3, started := 1, finished := 1 }

def played (n : Int) : List String := finalLine n.toNat n :: "" :: trail n.toNat

theorem Opening.clears (h : Opening V n s) :
    ∃ t, Takes (court n) (50 * n.toInt.toNat + 72) s t ∧
      Emptied V (totals n.toInt) (played n.toInt) t := by
  by_cases hn : 0 < n.toInt
  · obtain ⟨t, ht, hs⟩ := h.rounds hn
    obtain ⟨left, ball, hstk, hleft, hball⟩ := hs.stack
    obtain ⟨b, x, hpong, hb⟩ := hs.pongFiber
    have hthrough : Through V n (playerOn V.pong 1 .suspended)
        { switches := 3 * n.toInt.toNat + 1, started := 2 } 3 (trail n.toInt.toNat)
        n.toInt.toNat t :=
      { hs with stack := ⟨left, ball, hstk, by omega, hball⟩ }
    obtain ⟨u, hu, hf, hkeep, hstop⟩ := hthrough.stops (by decide)
    obtain ⟨hb', hlt⟩ := hkeep b x hb
    obtain ⟨v, hv, hstopped⟩ := hstop.stopsWaiting (hf.trans hpong) hb' hlt
    obtain ⟨w, hw, hc⟩ := hstopped.clears
    refine ⟨w, (ht.trans (hu.trans (hv.trans hw rfl) rfl) rfl).within (by omega), ?_⟩
    rw [totals, if_pos hn]
    exact hc
  · have hzero : n.toInt.toNat = 0 := by omega
    have hthrough : Through V n (newcomer V.pong (.pong 0)) { switches := 1, started := 1 } 2
        (trail 0) 0 s :=
      { h with
        stack := ⟨n, 0, h.stack, by omega, rfl⟩
        pingFiber := by rw [h.fibers]; rfl }
    obtain ⟨u, hu, -, -, hstop⟩ := hthrough.stops (Nat.le_refl 2)
    obtain ⟨v, hv, hstopped⟩ := hstop.kills
    obtain ⟨w, hw, hc⟩ := hstopped.clears
    refine ⟨w, (hu.trans (hv.trans hw rfl) rfl).within (by omega), ?_⟩
    rw [totals, if_neg hn, played, hzero]
    exact hc

/-- The whole run of a rally. -/
theorem opened_finishes (env : Environment) (n : Int64) :
    Finishes (court n) (totals n.toInt)
      ((lastLines true (totals n.toInt)).reverse ++ played n.toInt) (50 * n.toInt.toNat + 102)
      (opened env n) := by
  obtain ⟨s, hw, hc⟩ := opened_next env n
  obtain ⟨t, ht, ho⟩ := hc.opens
  obtain ⟨u, hu, he⟩ := ho.clears
  have hT : u.hub.stats = totals n.toInt := by rw [he.hub]; rfl
  have hrun : Finishes (court n) (totals n.toInt)
      ((lastLines true (totals n.toInt)).reverse ++ played n.toInt) _ (opened env n).next :=
    (ht.trans hu rfl).finishes hw (by rw [hT]; exact .refl _) fun w' hw' => he.exits hw'
  have hzero : ((opened env n).hub 0).stats = {} := rfl
  refine (hrun.next rfl (fair_of_stack rfl rfl _) ?_).within (by omega)
  rw [show (court n).hub = 0 from rfl, hzero]
  exact ⟨Nat.zero_le _, Nat.zero_le _, Nat.zero_le _, Nat.zero_le _, Nat.zero_le _, Nat.zero_le _,
    Nat.zero_le _⟩

end World

/-- Each counter fits into the word that holds it. -/
structure Stats.Fits (t : Stats) : Prop where
  switches : t.switches < UInt64.size
  started : t.started < UInt64.size
  finished : t.finished < UInt64.size
  released : t.released < UInt64.size
  deferred : t.deferred < UInt64.size
  drained : t.drained < UInt64.size
  abandoned : t.abandoned < UInt64.size

theorem Stats.Grows.fits {s t : Stats} (h : s.Grows t) (ht : t.Fits) : s.Fits where
  switches := Nat.lt_of_le_of_lt h.switches ht.switches
  started := Nat.lt_of_le_of_lt h.started ht.started
  finished := Nat.lt_of_le_of_lt h.finished ht.finished
  released := Nat.lt_of_le_of_lt h.released ht.released
  deferred := Nat.lt_of_le_of_lt h.deferred ht.deferred
  drained := Nat.lt_of_le_of_lt h.drained ht.drained
  abandoned := Nat.lt_of_le_of_lt h.abandoned ht.abandoned

namespace World

theorem totals_fits {n : Int} (h : 3 * n + 4 < UInt64.size) : (totals n).Fits := by
  have hsize : UInt64.size = 18446744073709551616 := rfl
  unfold totals
  split
  · constructor <;> simp only [hsize] <;> omega
  · constructor <;> decide

/-- The lines of a rally of `n` rounds. -/
def rallyLines (n : Int) : List String :=
  ["=== Greenlet Ping-Pong ===", ""] ++ (List.range n.toNat).map relayLine ++
    ["", finalLine n.toNat n] ++ lastLines true (totals n)

/-- A rally of `n` rounds is over: the first thread has nothing left to do and has not panicked, and
the lines of the rally are printed. -/
structure PlayedOut (n : Int) (w : World) : Prop where
  active : w.active = 1
  stack : w.thread.stack = []
  panicked : w.thread.panicked = none
  lines : Rally.lines w = rallyLines n

/-- No addition overflows: not that of pong, which makes the next ball, and none that has led to the
counters of the hub. -/
structure InRange (w : World) : Prop where
  pong : ∀ main a below, w.thread.stack = .task (.rally (.hit main a)) :: below →
    ((w.number? a).getD 0 + 1).toInt = ((w.number? a).getD 0).toInt + 1
  counters : (w.hub 0).stats.Fits

theorem AtEnd.isHalted {K : Site} {w : World} {lines : List String} (h : AtEnd K lines w)
    (hK : K.thread = 1) : w.isHalted = true := by
  unfold World.isHalted
  rw [h.stack, h.active, hK]
  rfl

/-- A rally of any number of rounds is played to its end, and as long as the number of its switches
fits into the counter no addition overflows. Without rounds pong does not run at all. -/
theorem rally_plays_out (env : Environment) (n : Int64) (h : 3 * n.toInt + 4 < UInt64.size) :
    PlayedOut n.toInt (opened env n).runToEnd ∧ (∀ m, InRange ((opened env n).run m)) ∧
      (n.toInt ≤ 0 → ∀ m main a below,
        ((opened env n).run m).thread.stack ≠ .task (.rally (.hit main a)) :: below) ∧
      (Rally.rounds env = n → Rally.play env = (opened env n).runToEnd) := by
  obtain ⟨k, hk, hend, hall⟩ := opened_finishes env n
  have hhalt := hend.isHalted rfl
  have hlate (m : Nat) : (opened env n).run (k + m) = (opened env n).run k := by
    rw [run_add_run, run_of_isHalted hhalt]
  -- The run stays at its end, so that what holds up to there holds of all worlds of the run.
  have hruns (m : Nat) : ((opened env n).run m).Fair n.toInt ∧
      (((opened env n).run m).hub 0).stats.Grows (totals n.toInt) := by
    by_cases hm : m ≤ k
    · exact hall m hm
    · obtain ⟨j, rfl⟩ := Nat.exists_eq_add_of_le (Nat.le_of_not_le hm)
      rw [hlate]
      exact hall k (Nat.le_refl k)
  have hpatience : k ≤ Control.patience := by
    have hn := n.toInt_lt
    unfold Control.patience
    omega
  refine ⟨?_, fun m => ?_, fun hn m main a below hs => ?_, fun hr => ?_⟩
  · obtain ⟨j, hj⟩ := Nat.exists_eq_add_of_le hpatience
    have hrun : (opened env n).runToEnd = (opened env n).run k := by
      rw [World.runToEnd, hj, hlate]
    rw [hrun]
    refine ⟨hend.active, hend.stack, hend.panicked, ?_⟩
    rw [Rally.lines, hend.printed]
    simp [rallyLines, played, trail]
  · obtain ⟨hf, hg⟩ := hruns m
    exact ⟨fun main a below hs => toInt_succ (hf main a below hs).2, hg.fits (totals_fits h)⟩
  · obtain ⟨h0, hx⟩ := (hruns m).1 main a below hs
    omega
  · subst hr
    rfl

theorem rally_plays_out_three :
    3 * (3 : Int64).toInt + 4 < UInt64.size ∧ PlayedOut 3 (opened ⟨[]⟩ 3).runToEnd ∧
      ∀ m, InRange ((opened ⟨[]⟩ 3).run m) :=
  ⟨by decide, (rally_plays_out ⟨[]⟩ 3 (by decide)).1, (rally_plays_out ⟨[]⟩ 3 (by decide)).2.1⟩

end World

end Switchyard
