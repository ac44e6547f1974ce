import Switchyard.Proofs.Rally.Finale

/-!
# The exit of the first thread

The slots of the thread end one after the other, and with the one of the hub the hub is shut. Then
nothing is left to do.
-/

namespace Switchyard

namespace World

/-- The thread of the site has nothing left to do. These lines are printed, the latest first. -/
structure AtEnd (K : Site) (lines : List String) (w : World) : Prop where
  active : w.active = K.thread
  stack : w.thread.stack = []
  panicked : w.thread.panicked = K.panicked
  printed : w.printed = lines

/-- The run comes to its end within `c` steps. Pong gets fair balls all the time, and the counters
of the hub do not pass `T`. -/
def Finishes (K : Site) (T : Stats) (lines : List String) (c : Nat) (w : World) : Prop :=
  ∃ m ≤ c, AtEnd K lines (w.run m) ∧
    ∀ l ≤ m, (w.run l).Fair K.rounds ∧ ((w.run l).hub K.hub).stats.Grows T

variable {K : Site} {w : World} {s s' : Snapshot} {T : Stats} {lines : List String} {c d n : Nat}
  {below : List (Item Task)} {l : List SlotName} {x : SlotName}

theorem Finishes.next (h : Finishes K T lines c w.next) (hh : w.isHalted = false)
    (hf : w.Fair K.rounds) (hg : (w.hub K.hub).stats.Grows T) : Finishes K T lines (c + 1) w := by
  obtain ⟨m, hm, hend, hall⟩ := h
  have hrun (l : Nat) : w.run (l + 1) = w.next.run l := by simp [World.run, hh]
  refine ⟨m + 1, Nat.succ_le_succ hm, by rwa [hrun], fun l hl => ?_⟩
  cases l with
  | zero => exact ⟨hf, hg⟩
  | succ l =>
    rw [hrun]
    exact hall l (Nat.le_of_succ_le_succ hl)

theorem Takes.finishes (h : Takes K c s s') (hw : Depicts K w s) (hg : s'.hub.stats.Grows T)
    (he : ∀ w', Depicts K w' s' → Finishes K T lines d w') : Finishes K T lines (d + c) w := by
  obtain ⟨k, hk, hw', hmid⟩ := h.way w hw
  obtain ⟨m, hm, hend, hall⟩ := he _ hw'
  refine ⟨k + m, by omega, by rwa [run_add_run], fun l hl => ?_⟩
  by_cases hlk : l < k
  · exact ⟨(hmid l hlk).1, (hmid l hlk).2.trans hg⟩
  · obtain ⟨j, rfl⟩ : ∃ j, l = k + j := ⟨l - k, by omega⟩
    rw [run_add_run]
    exact hall j (by omega)

theorem Depicts.finishes {t : Task} (h : Depicts K w s) (hs : s.stack = .task t :: below)
    (ht : t.isPrompt = true) (hg : s.hub.stats.Grows T)
    (hn : Finishes K T lines c ((w.setStack below).runTask t)) : Finishes K T lines (c + 1) w := by
  have hstk : w.thread.stack = .task t :: below := h.stack.trans hs
  obtain ⟨hh, he⟩ := next_task hstk (Task.ne_destroy ht)
  refine Finishes.next (by rwa [he]) hh (fair_of_stack hstk (Task.hits_eq_false ht) _) ?_
  rw [h.hub]
  exact hg

namespace Depicts

theorem endPending (h : Depicts K w s) (hl : w.thread.touched = x :: l) :
    Depicts K (w.modifyThread fun t => { t with touched := l, pending := .gone })
      (s.setPending .gone) := by
  have ht := thread_modifyThread h.seated fun t => { t with touched := l, pending := .gone }
  exact { h with
    seated := (seated_modifyThread _).mpr h.seated
    stack := by rw [ht]; exact h.stack
    pending := by rw [ht]; rfl
    home := by rw [ht]; exact h.home
    panicked := by rw [ht]; exact h.panicked
    touched := fun ho => by
      have hd := h.touched ho
      rw [hl] at hd
      rw [ht]
      exact (List.nodup_cons.mp hd).2 }

theorem endHome (h : Depicts K w s) (hl : w.thread.touched = x :: l) :
    Depicts { K with home := .gone }
      (w.modifyThread fun t => { t with touched := l, home := .gone }) s := by
  have ht := thread_modifyThread h.seated fun t => { t with touched := l, home := .gone }
  exact { h with
    seated := (seated_modifyThread _).mpr h.seated
    stack := by rw [ht]; exact h.stack
    pending := by rw [ht]; exact h.pending
    home := by rw [ht]
    panicked := by rw [ht]; exact h.panicked
    touched := fun ho => by
      have hd := h.touched ho
      rw [hl] at hd
      rw [ht]
      exact (List.nodup_cons.mp hd).2 }

end Depicts

private theorem lastTask (h : Depicts K w s) (hs : s.stack = [.task (.sortFrom n)]) :
    Finishes K s.hub.stats s.printed 1 w := by
  refine h.finishes hs rfl (.refl _) ?_
  have h₁ : Depicts K ((w.setStack []).runTask (.sortFrom n)) (s.setStack []) :=
    { h.setStack [] with }
  refine ⟨0, Nat.le_refl 0, ⟨h₁.active, h₁.stack, h₁.panicked, h₁.printed⟩, fun l hl => ?_⟩
  obtain rfl : l = 0 := Nat.le_zero.mp hl
  refine ⟨fun main a under he => ?_, ?_⟩
  · have he : ((w.setStack []).runTask (.sortFrom n)).thread.stack = _ := he
    rw [h₁.stack] at he
    cases he
  · change (((w.setStack []).runTask (.sortFrom n)).hub K.hub).stats.Grows _
    rw [h₁.hub]
    exact .refl _

private theorem noSlots (h : Depicts K w s) (hl : w.thread.touched = [])
    (hs : s.stack = [.task .exitSlots, .task (.sortFrom n)]) :
    Finishes K s.hub.stats s.printed 2 w := by
  refine h.finishes hs rfl (.refl _) ?_
  have hw : (w.setStack [.task (.sortFrom n)]).runTask .exitSlots =
      w.setStack [.task (.sortFrom n)] := by
    change World.exitSlots _ = _
    unfold World.exitSlots
    simp only [thread_setStack h.seated, hl]
  have h₁ := lastTask (h.setStack [.task (.sortFrom n)]) rfl
  rw [hw]
  exact h₁

private theorem pendingSlot (h : Depicts K w s) (hl : w.thread.touched = .pending :: l)
    (hp : s.pending.get? = none) :
    Depicts K w.exitSlots ((s.setPending .gone).push [.exitSlots]) ∧
      w.exitSlots.thread.touched = l := by
  have hw : w.exitSlots =
      (w.modifyThread fun t => { t with touched := l, pending := .gone }).push [.exitSlots] := by
    unfold World.exitSlots
    simp only [hl, h.pending, hp]
    rfl
  have hseated := (seated_modifyThread
    fun t => { t with touched := l, pending := .gone }).mpr h.seated
  rw [hw]
  refine ⟨(h.endPending hl).push _, ?_⟩
  rw [World.push, thread_modifyThread hseated, thread_modifyThread h.seated]

private theorem homeSlot (h : Depicts K w s) (hl : w.thread.touched = .home :: l) :
    Depicts { K with home := .gone } w.exitSlots (s.push
        (((K.home.get?.map fun h => [.teardown h, .leaveHub h]).getD []) ++ [.exitSlots])) ∧
      w.exitSlots.thread.touched = l := by
  have hw : w.exitSlots = (w.modifyThread fun t => { t with touched := l, home := .gone }).push
      (((K.home.get?.map fun h => [.teardown h, .leaveHub h]).getD []) ++ [.exitSlots]) := by
    unfold World.exitSlots
    simp only [hl, h.home]
  have hseated := (seated_modifyThread
    fun t => { t with touched := l, home := .gone }).mpr h.seated
  rw [hw]
  refine ⟨(h.endHome hl).push _, ?_⟩
  rw [World.push, thread_modifyThread hseated, thread_modifyThread h.seated]

private theorem slotsPast (h : Depicts K w s) (hK : K.home = .gone)
    (hl : w.thread.touched = l) (hp : s.pending.get? = none)
    (hs : s.stack = [.task .exitSlots, .task (.sortFrom n)]) :
    Finishes K s.hub.stats s.printed (l.length + 2) w := by
  induction l generalizing w s with
  | nil => exact noSlots h hl hs
  | cons x l ih =>
    refine h.finishes hs rfl (.refl _) ?_
    have h₁ := h.setStack [.task (.sortFrom n)]
    have hl₁ : (w.setStack [.task (.sortFrom n)]).thread.touched = x :: l := by
      rw [thread_setStack h.seated]
      exact hl
    cases x with
    | pending =>
      obtain ⟨h₂, hl₂⟩ := pendingSlot h₁ hl₁ hp
      have h₃ := ih h₂ hl₂ rfl rfl
      exact h₃
    | home =>
      obtain ⟨h₂, hl₂⟩ := homeSlot h₁ hl₁
      have hgone : { K with home := .gone } = K := by rw [← hK]
      have hnone : K.home.get? = none := by rw [hK]; rfl
      rw [hgone, hnone] at h₂
      have h₃ := ih h₂ hl₂ hp rfl
      exact h₃

theorem Finishes.within (h : Finishes K T lines c w) (hc : c ≤ d) : Finishes K T lines d w := by
  obtain ⟨m, hm, hend⟩ := h
  exact ⟨m, Nat.le_trans hm hc, hend⟩

theorem Finishes.anyHome {p : Slot HubId} (h : Finishes { K with home := p } T lines c w) :
    Finishes K T lines c w := by
  obtain ⟨m, hm, hend, hall⟩ := h
  exact ⟨m, hm, ⟨hend.active, hend.stack, hend.panicked, hend.printed⟩, hall⟩

theorem length_le_two (h : l.Nodup) : l.length ≤ 2 := by
  match l with
  | [] | [_] | [_, _] => simp
  | a :: b :: c :: _ => cases a <;> cases b <;> cases c <;> simp at h

variable {V : Names} {N : Int64}

private theorem shuts (hs : s.stack = .task (.teardown 0) :: .task (.leaveHub 0) :: below)
    (hhub : s.hub = { rallyHub 0 false T 1 with nodes := [] })
    (hm : s.object 0 = some ⟨2, .greenlet (mainAt V.main .running)⟩) (hlock : s.lock = {}) :
    Takes { court N with home := .gone } 13 s { s.setStack below with
      object := Function.update s.object 0 none
      hub := { rallyHub 0 false T 0 with nodes := [], closed := true, disposed := true } } := by
  obtain ⟨stack, lock, fibers, hub, object, size, handles, pending, ids, fuel, printed⟩ := s
  subst hs hhub hlock
  exact Takes.endHome (K := { court N with home := .gone }) (m := ⟨1, 1⟩) rfl rfl rfl rfl rfl rfl
    rfl rfl rfl rfl hm rfl rfl rfl rfl

private theorem Depicts.slots (h : Depicts (court N) w s) (hl : w.thread.touched = l)
    (hp : s.pending.get? = none) (hs : s.stack = [.task .exitSlots, .task (.sortFrom n)])
    (hhub : s.hub = { rallyHub 0 false T 1 with nodes := [] })
    (hm : s.object 0 = some ⟨2, .greenlet (mainAt V.main .running)⟩) (hlock : s.lock = {}) :
    Finishes (court N) s.hub.stats s.printed (l.length + 18) w := by
  induction l generalizing w s with
  | nil => exact (noSlots h hl hs).within (Nat.le_add_left 2 16)
  | cons x l ih =>
    refine h.finishes hs rfl (.refl _) ?_
    have h₁ := h.setStack [.task (.sortFrom n)]
    have hl₁ : (w.setStack [.task (.sortFrom n)]).thread.touched = x :: l := by
      rw [thread_setStack h.seated]
      exact hl
    cases x with
    | pending =>
      obtain ⟨h₂, hl₂⟩ := pendingSlot h₁ hl₁ hp
      have h₃ := ih h₂ hl₂ rfl rfl hhub hm hlock
      exact h₃
    | home =>
      obtain ⟨h₂, -⟩ := homeSlot h₁ hl₁
      have hend : Takes { court N with home := .gone } 13 _ _ :=
        shuts (V := V) (T := T) (s := (s.setStack [.task (.sortFrom n)]).push
          [.teardown 0, .leaveHub 0, .exitSlots]) rfl hhub hm hlock
      have hpast : Finishes { court N with home := .gone } s.hub.stats s.printed 17
          (w.setStack [.task (.sortFrom n)]).exitSlots := by
        refine hend.finishes (d := 4) h₂ (by rw [hhub]; exact .refl _) fun w' h' => ?_
        have hle := length_le_two (h'.touched rfl)
        have h₃ := slotsPast h' rfl rfl hp rfl
        rw [hhub]
        exact h₃.within (Nat.add_le_add_right hle 2)
      exact hpast.anyHome.within (Nat.le_add_left 17 _)

theorem Emptied.exits (h : Emptied V T lines s) (hw : Depicts (court N) w s) :
    Finishes (court N) T ((lastLines true T).reverse ++ lines) 21 w := by
  have hT : s.hub.stats = T := by rw [h.hub]; rfl
  rw [← h.printed, ← hT]
  refine hw.finishes h.stack rfl (.refl _) ?_
  have h₁ := hw.setStack []
  have h₂ : Depicts (court N) ((w.setStack []).runTask .exitThread)
      ((s.setStack []).push [.exitSlots, .sortFrom w.events.length]) := by
    have h₂ : Depicts (court N) { w.setStack [] with exitFrom := some w.events.length }
      (s.setStack []) := { h₁ with }
    change Depicts (court N) (World.exitThread (w.setStack [])) _
    unfold World.exitThread
    split
    · exact h₂.push _
    · exact h₁.push _
  have h₃ := h₂.slots (V := V) (T := T) rfl (congrArg Slot.get? h.pending) rfl h.hub h.main h.lock
  have hle := length_le_two (h₂.touched rfl)
  exact h₃.within (Nat.add_le_add_right hle 18)

end World

end Switchyard
