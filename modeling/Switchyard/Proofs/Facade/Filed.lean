import Switchyard.Proofs.Facade.Later

/-!
# What tasks speak of

The tasks of the engine name hubs and greenlets. A task stands on a stack of the thread that its
hub belongs to, and its greenlets belong to that hub. Some tasks rely on the tasks that they were
put on top of.
-/

namespace Switchyard

open World

namespace World

variable {w w' : World} {r : Ref} {h : HubId} {i : Nat}

/-- What is at `r`, if it is still there, is a greenlet of `h`. -/
def Belongs (w : World) (r : Ref) (h : HubId) : Prop :=
  r < w.heap.size ∧ ∀ o, w.object? r = some o → ∃ g, o.value = .greenlet g ∧ g.hub = h

/-- The same, and the greenlet has begun to use its run function, if it ever had one. -/
def Spent (w : World) (r : Ref) (h : HubId) : Prop :=
  r < w.heap.size ∧ ∀ o, w.object? r = some o →
    ∃ g, o.value = .greenlet g ∧ g.hub = h ∧ g.isMain = false ∧ g.run = none

def Owned (w : World) (h : HubId) (i : Nat) : Prop := h < w.hubs.size ∧ (w.hub h).thread = i + 1

def Shut (w : World) (h : HubId) (i : Nat) : Prop := w.Owned h i ∧ (w.hub h).closed = true

theorem Belongs.later (hb : w.Belongs r h) (hl : Later w w') : w'.Belongs r h := by
  refine ⟨Nat.lt_of_lt_of_le hb.1 hl.size, fun o' ho' => ?_⟩
  obtain ⟨o, ho, hg, -⟩ := hl.objects r o' hb.1 ho'
  obtain ⟨g, hv, hh⟩ := hb.2 o ho
  obtain ⟨g', hv', hl'⟩ := hg g hv
  exact ⟨g', hv', hl'.hub.trans hh⟩

theorem Spent.later (hb : w.Spent r h) (hl : Later w w') : w'.Spent r h := by
  refine ⟨Nat.lt_of_lt_of_le hb.1 hl.size, fun o' ho' => ?_⟩
  obtain ⟨o, ho, hg, -⟩ := hl.objects r o' hb.1 ho'
  obtain ⟨g, hv, hh, hm, hr⟩ := hb.2 o ho
  obtain ⟨g', hv', hl'⟩ := hg g hv
  exact ⟨g', hv', hl'.hub.trans hh, hl'.isMain.trans hm, hl'.run hr⟩

theorem Owned.later (ho : w.Owned h i) (hl : Later w w') : w'.Owned h i := by
  obtain ⟨h₁, h₂, -⟩ := hl.hub ho.1
  exact ⟨h₁, h₂.trans ho.2⟩

theorem Shut.later (hs : w.Shut h i) (hl : Later w w') : w'.Shut h i :=
  ⟨hs.1.later hl, (hl.hub hs.1.1).2.2.2 hs.2⟩

theorem Belongs.greenlet? (hb : w.Belongs r h) {o : Object} (ho : w.object? r = some o) :
    ∃ g, w.greenlet? r = some g ∧ g.hub = h := by
  obtain ⟨g, hv, hh⟩ := hb.2 o ho
  exact ⟨g, by simp [World.greenlet?, ho, hv, Value.greenlet?], hh⟩

theorem belongs_of_greenlet? {g : Greenlet} (hg : w.greenlet? r = some g) : w.Belongs r g.hub := by
  obtain ⟨n, ho⟩ := greenlet?_eq_some_iff.mp hg
  refine ⟨lt_size_of_object? ho, fun o ho' => ⟨g, ?_, rfl⟩⟩
  obtain rfl : o = ⟨n, .greenlet g⟩ := by simpa [ho] using ho'.symm
  rfl

end World

/-- The stacks that are still to be released are followed by a drain of the hub `h`. -/
def Item.drains (h : HubId) : List (Item Task) → Bool
  | .task (.release k _) :: s => k == h && drains h s
  | .task (.drain k) :: _ => k == h
  | _ => false

/-- What a task relies on, on a stack of the thread at place `i`, above the items `below`. -/
def Task.Filed (w : World) (i : Nat) (below : List (Item Task)) : Task → Prop
  | switch h t _ => w.Owned h i ∧ ∃ u rest,
    below = .task (.leaveHub h) :: .task u :: rest ∧ u.lends = true ∧ .object t ∈ u.tokens
  | suspend h _ | resumed h | endDriving h | entry h _ | leaveHub h | drain h => w.Owned h i
  | drive h t _ | driveTarget h t _ | driveKilled h t _ | driveRefused h t _ | driveMain h t _
  | driveRegister h t _ | driveResume h t _ | driveBack h t _ => w.Owned h i ∧ w.Belongs t h
  | driveFinished h t out | driveSuspended h t out =>
    w.Owned h i ∧ w.Belongs t h ∧ ∀ u p, out = some (.switch u p) → w.Belongs u h
  | release h r => w.Owned h i ∧ w.Spent r h ∧ Item.drains h below = true
  | released h _ => w.Owned h i ∧ Item.drains h below = true
  | teardown h => w.Shut h i ∨
    w.Owned h i ∧ ∃ rest, below = .task (.leaveHub h) :: .task .exitSlots :: rest
  | teardownQueues h _ | teardownCurrent h _ =>
    w.Shut h i ∧ ∃ rest, below = .task (.leaveHub h) :: rest
  | teardownEnd h main _ => w.Shut h i ∧ main = (w.hub h).main
  | dropHubFields h => w.Shut h i
  | settle f => f < w.fibers.size ∧ (w.fiberD f).isTaken = true
  | _ => True

namespace Item

def Filed (w : World) (i : Nat) : List (Item Task) → Prop
  | [] => True
  | .task t :: rest => t.Filed w i rest ∧ Filed w i rest
  | .base .. :: rest => Filed w i rest

variable {w w' : World} {i : Nat} {s s' : List (Item Task)}

theorem filed_of_plain {t : Task} (h : t.isPlain = true) : t.Filed w i s := by
  cases t <;> trivial

private theorem task_later {t : Task} (h : t.Filed w i s) (hl : Later w w') : t.Filed w' i s := by
  cases t with
  | switch x t p => exact ⟨h.1.later hl, h.2⟩
  | suspend | resumed | endDriving | entry | leaveHub | drain => exact Owned.later h hl
  | dropHubFields => exact Shut.later h hl
  | drive | driveTarget | driveKilled | driveRefused | driveMain | driveRegister | driveResume
  | driveBack => exact ⟨h.1.later hl, h.2.later hl⟩
  | driveFinished | driveSuspended =>
    exact ⟨h.1.later hl, h.2.1.later hl, fun u p ho => (h.2.2 u p ho).later hl⟩
  | release => exact ⟨h.1.later hl, h.2.1.later hl, h.2.2⟩
  | released => exact ⟨h.1.later hl, h.2⟩
  | teardown x => exact Or.imp (·.later hl) (fun h => ⟨h.1.later hl, h.2⟩) h
  | teardownQueues | teardownCurrent => exact ⟨h.1.later hl, h.2⟩
  | teardownEnd x main n =>
    obtain ⟨-, -, hm, -⟩ := hl.hub h.1.1.1
    exact ⟨h.1.later hl, h.2.trans hm.symm⟩
  | settle f =>
    obtain ⟨h₁, h₂⟩ := hl.fiberD h.1
    exact ⟨h₁, h₂.taken h.2⟩
  | _ => trivial

theorem Filed.later (h : Filed w i s) (hl : Later w w') : Filed w' i s := by
  induction s with
  | nil => trivial
  | cons x s ih =>
    cases x with
    | task t => exact ⟨task_later h.1 hl, ih h.2⟩
    | base f forced => exact ih h

theorem drains_append {h : HubId} (hd : drains h s = true) : drains h (s ++ s') = true := by
  induction s with
  | nil => cases hd
  | cons x s ih =>
    unfold drains at hd ⊢
    split at hd
    · simp_all
    · simp_all
    · cases hd

theorem drains_above {h : HubId} {f : FiberId} {forced : Bool}
    (hd : drains h (s ++ .base f forced :: s') = true) : drains h s = true := by
  induction s with
  | nil => cases hd
  | cons x s ih =>
    unfold drains at hd ⊢
    split at hd
    · simp_all
    · simp_all
    · cases hd

theorem drains_modifyFrameOf {h : HubId} (g : Frame → Frame) (hd : drains h s = true) :
    drains h (modifyFrameOf g s) = true := by
  induction s with
  | nil => cases hd
  | cons x s ih =>
    unfold drains at hd
    split at hd
    · simp_all [modifyFrameOf, drains]
    · simp_all [modifyFrameOf, drains]
    · cases hd

private theorem task_append {t : Task} (h : t.Filed w i s) : t.Filed w i (s ++ s') := by
  cases t with
  | switch x t p =>
    obtain ⟨ho, u, rest, rfl, hu⟩ := h
    exact ⟨ho, u, rest ++ s', rfl, hu⟩
  | teardown x =>
    refine Or.imp id (fun h => ?_) h
    obtain ⟨ho, rest, rfl⟩ := h
    exact ⟨ho, rest ++ s', rfl⟩
  | teardownQueues | teardownCurrent =>
    obtain ⟨hs, rest, rfl⟩ := h
    exact ⟨hs, rest ++ s', rfl⟩
  | release => exact ⟨h.1, h.2.1, drains_append h.2.2⟩
  | released => exact ⟨h.1, drains_append h.2⟩
  | _ => exact h

theorem Filed.append (h : Filed w i s) (h' : Filed w i s') : Filed w i (s ++ s') := by
  induction s with
  | nil => exact h'
  | cons x s ih =>
    cases x with
    | task t => exact ⟨task_append h.1, ih h.2⟩
    | base f forced => exact ih h

private theorem task_above {t : Task} {f : FiberId} {forced : Bool} {below : List (Item Task)}
    (h : t.Filed w i (s ++ .base f forced :: below)) : t.Filed w i s := by
  cases t with
  | switch x t p =>
    obtain ⟨ho, u, rest, he, hu⟩ := h
    obtain ⟨s, rfl⟩ := Item.tasks_above he
    exact ⟨ho, u, s, rfl, hu⟩
  | teardown x =>
    refine Or.imp id (fun h => ?_) h
    obtain ⟨ho, rest, he⟩ := h
    obtain ⟨s, rfl⟩ := Item.tasks_above he
    exact ⟨ho, s, rfl⟩
  | teardownQueues | teardownCurrent =>
    obtain ⟨hs, rest, he⟩ := h
    cases s with
    | nil => cases (List.cons.inj he).1
    | cons a s => exact ⟨hs, s, by rw [(List.cons.inj he).1]⟩
  | release => exact ⟨h.1, h.2.1, drains_above h.2.2⟩
  | released => exact ⟨h.1, drains_above h.2⟩
  | _ => exact h

theorem Filed.split {above below : List (Item Task)} {f : FiberId} {forced : Bool}
    (h : Filed w i (above ++ .base f forced :: below)) :
    Filed w i above ∧ Filed w i below := by
  induction above with
  | nil => exact ⟨trivial, h⟩
  | cons x s ih =>
    cases x with
    | task t => exact ⟨⟨task_above h.1, (ih h.2).1⟩, (ih h.2).2⟩
    | base g fc => exact ih h

theorem filed_plain {ts : List Task} (h : ts.all Task.isPlain = true) :
    Filed w i (ts.map .task) := by
  induction ts with
  | nil => trivial
  | cons t ts ih =>
    simp only [List.all_cons, Bool.and_eq_true] at h
    exact ⟨filed_of_plain h.1, ih h.2⟩

theorem Filed.pushPlain (h : Filed w i s) {ts : List Task} (ht : ts.all Task.isPlain = true) :
    Filed w i (ts.map .task ++ s) :=
  (filed_plain ht).append h

private theorem task_modifyFrameOf (g : Frame → Frame) {t : Task} (h : t.Filed w i s) :
    t.Filed w i (modifyFrameOf g s) := by
  cases t with
  | switch x t p =>
    obtain ⟨ho, u, rest, rfl, hu, ht⟩ := h
    cases u with
    | switched | rally => exact ⟨ho, _, _, rfl, hu, ht⟩
    | _ => cases hu
  | teardown x =>
    refine Or.imp id (fun h => ?_) h
    obtain ⟨ho, rest, rfl⟩ := h
    exact ⟨ho, _, rfl⟩
  | teardownQueues | teardownCurrent =>
    obtain ⟨hs, rest, rfl⟩ := h
    exact ⟨hs, _, rfl⟩
  | release => exact ⟨h.1, h.2.1, drains_modifyFrameOf g h.2.2⟩
  | released => exact ⟨h.1, drains_modifyFrameOf g h.2⟩
  | _ => exact h

theorem Filed.modifyFrameOf (h : Filed w i s) (g : Frame → Frame) :
    Filed w i (World.modifyFrameOf g s) := by
  induction s with
  | nil => trivial
  | cons x s ih =>
    unfold World.modifyFrameOf
    split
    · rename_i he
      cases he
    · rename_i f rest he
      obtain ⟨rfl, rfl⟩ := List.cons.inj he
      exact ⟨trivial, h.2⟩
    · rename_i j rest hj he
      obtain ⟨rfl, rfl⟩ := List.cons.inj he
      cases x with
      | task t => exact ⟨task_modifyFrameOf g h.1, ih h.2⟩
      | base f forced => exact ih h

end Item

/-- What a saved stack of the greenlet `r` of hub `h` relies on. -/
def Fiber.Filed (w : World) (h : HubId) (i : Nat) (f : FiberId) (s : Fiber Task) : Prop :=
  match s.phase with
  | .fresh entry discard => (∃ run args, entry = [.runBody run args, .entry h f]) ∧
    discard.all Task.isPlain = true ∧
    ∀ x, (Task.tokensOf discard).count x ≤ (Task.tokensOf entry).count x
  | .parked stack => Item.Filed w i stack
  | _ => True

theorem Fiber.Filed.later {w w' : World} {h : HubId} {i : Nat} {f : FiberId} {s : Fiber Task}
    (hs : s.Filed w h i f) (hl : Switchyard.Later w w') :
    s.Filed w' h i f := by
  unfold Fiber.Filed at *
  cases hp : s.phase with
  | fresh entry discard => simpa only [hp] using hs
  | parked stack =>
    simp only [hp] at hs ⊢
    exact hs.later hl
  | _ => trivial

end Switchyard
