import Switchyard.Proofs.Ownership.Control

/-!
# What tasks rely on below them

A task that works on a hub has no share of the hub. It relies on a task further down, above the end
of the fiber, that keeps the hub until then. A switch borrows its target from the task that waits
for the outcome.
-/

namespace Switchyard

open World

namespace Task

/-- The hub that the task works on without a share of its own. -/
def guest? : Task → Option HubId
  | switch h _ _ | drive h _ _ | driveTarget h _ _ | driveKilled h _ _ | driveRefused h _ _
  | driveRegister h _ _ | driveResume h _ _ | driveBack h _ _ | driveFinished h _ _
  | driveSuspended h _ _ | teardown h | teardownQueues h _ | teardownCurrent h _ => some h
  | _ => none

/-- The task relies on nothing below it. -/
def isAlone (t : Task) : Bool := t.guest?.isNone

/-- The references of the hub are not given up before the task has run. -/
def keeps (h : HubId) : Task → Bool
  | leaveHub k | dropHubFields k => k == h
  | _ => false

theorem isAlone_of_isPlain {t : Task} (h : t.isPlain = true) : t.isAlone = true := by
  cases t <;> first | rfl | cases h

theorem all_isAlone_of_isPlain {ts : List Task} (h : ts.all isPlain = true) :
    ts.all isAlone = true := by
  rw [List.all_eq_true] at h ⊢
  exact fun t ht => isAlone_of_isPlain (h t ht)

end Task

namespace Item

/-- Some task above the next base keeps the hub. -/
def keeps (h : HubId) : List (Item Task) → Bool
  | .task t :: s => t.keeps h || keeps h s
  | _ => false

end Item

/-- What a task relies on, above the items `below`. -/
structure Task.Sits (t : Task) (below : List (Item Task)) : Prop where
  kept : ∀ h, t.guest? = some h → Item.keeps h below = true
  lent : ∀ h target p, t = .switch h target p → ∃ u rest,
    below = .task (.leaveHub h) :: .task u :: rest ∧ u.lends = true ∧ .object target ∈ u.tokens

namespace Item

def Framed : List (Item Task) → Prop
  | [] => True
  | .task t :: s => t.Sits s ∧ Framed s
  | .base .. :: s => Framed s

variable {s s' : List (Item Task)} {h : HubId}

theorem keeps_append (hk : keeps h s = true) : keeps h (s ++ s') = true := by
  induction s with
  | nil => cases hk
  | cons x s ih =>
    cases x with
    | base f forced => cases hk
    | task t =>
      simp only [keeps, Bool.or_eq_true, List.cons_append] at hk ⊢
      exact hk.imp id ih

theorem keeps_above {f : FiberId} {forced : Bool}
    (hk : keeps h (s ++ .base f forced :: s') = true) : keeps h s = true := by
  induction s with
  | nil => cases hk
  | cons x s ih =>
    cases x with
    | base g fc => cases hk
    | task t =>
      simp only [keeps, Bool.or_eq_true, List.cons_append] at hk ⊢
      exact hk.imp id ih

theorem keeps_modifyFrameOf (g : Frame → Frame) : keeps h (modifyFrameOf g s) = keeps h s := by
  induction s with
  | nil => rfl
  | cons x s ih =>
    unfold modifyFrameOf
    split
    · rename_i he
      cases he
    · rename_i f rest he
      obtain ⟨rfl, rfl⟩ := List.cons.inj he
      rfl
    · rename_i j rest _ he
      obtain ⟨rfl, rfl⟩ := List.cons.inj he
      cases x with
      | task t => simp only [keeps, ih]
      | base f forced => rfl

end Item

namespace Task.Sits

open Item

variable {t : Task} {s s' : List (Item Task)}

theorem of_isAlone (h : t.isAlone = true) : t.Sits s where
  kept k hk := by simp [isAlone, hk] at h
  lent k target p ht := by
    subst ht
    cases h

theorem guest {h : HubId} (hg : t.guest? = some h) (hn : ∀ k target p, t ≠ .switch k target p)
    (hk : Item.keeps h s = true) : t.Sits s where
  kept k hk' := by
    obtain rfl : h = k := Option.some.inj (hg.symm.trans hk')
    exact hk
  lent k target p ht := absurd ht (hn k target p)

theorem append (h : t.Sits s) : t.Sits (s ++ s') where
  kept k hk := keeps_append (h.kept k hk)
  lent k target p ht := by
    obtain ⟨u, rest, rfl, hu⟩ := h.lent k target p ht
    exact ⟨u, rest ++ s', rfl, hu⟩

theorem above {f : FiberId} {forced : Bool} (h : t.Sits (s ++ .base f forced :: s')) :
    t.Sits s where
  kept k hk := keeps_above (h.kept k hk)
  lent k target p ht := by
    obtain ⟨u, rest, he, hu⟩ := h.lent k target p ht
    obtain ⟨s, rfl⟩ := Item.tasks_above he
    exact ⟨u, s, rfl, hu⟩

theorem modifyFrameOf (g : Frame → Frame) (h : t.Sits s) : t.Sits (modifyFrameOf g s) where
  kept k hk := by
    rw [keeps_modifyFrameOf]
    exact h.kept k hk
  lent k target p ht := by
    obtain ⟨u, rest, rfl, hu, hm⟩ := h.lent k target p ht
    cases u with
    | switched | rally => exact ⟨_, _, rfl, hu, hm⟩
    | _ => cases hu

end Task.Sits

namespace Item

variable {s s' : List (Item Task)}

theorem Framed.append (h : Framed s) (h' : Framed s') : Framed (s ++ s') := by
  induction s with
  | nil => exact h'
  | cons x s ih =>
    cases x with
    | task t => exact ⟨h.1.append, ih h.2⟩
    | base f forced => exact ih h

theorem Framed.split {f : FiberId} {forced : Bool} (h : Framed (s ++ .base f forced :: s')) :
    Framed s ∧ Framed s' := by
  induction s with
  | nil => exact ⟨trivial, h⟩
  | cons x s ih =>
    cases x with
    | task t => exact ⟨⟨h.1.above, (ih h.2).1⟩, (ih h.2).2⟩
    | base g fc => exact ih h

theorem framed_alone {ts : List Task} (h : ts.all Task.isAlone = true) :
    Framed (ts.map .task) := by
  induction ts with
  | nil => trivial
  | cons t ts ih =>
    simp only [List.all_cons, Bool.and_eq_true] at h
    exact ⟨.of_isAlone h.1, ih h.2⟩

theorem Framed.push (h : Framed s) {l : List Task} (ht : l.all Task.isAlone = true) :
    Framed (l.map .task ++ s) :=
  (framed_alone ht).append h

theorem Framed.modifyFrameOf (g : Frame → Frame) (h : Framed s) :
    Framed (World.modifyFrameOf g s) := by
  induction s with
  | nil => trivial
  | cons x s ih =>
    unfold World.modifyFrameOf
    split
    · rename_i he
      cases he
    · rename_i f rest he
      obtain ⟨rfl, rfl⟩ := List.cons.inj he
      exact ⟨.of_isAlone rfl, h.2⟩
    · rename_i j rest _ he
      obtain ⟨rfl, rfl⟩ := List.cons.inj he
      cases x with
      | task t => exact ⟨h.1.modifyFrameOf g, ih h.2⟩
      | base f forced => exact ih h

end Item

/-- A saved stack relies on nothing outside of it. What is dropped of an entry that never ran is
what the entry owns. -/
def Fiber.Phase.Framed : Fiber.Phase Task → Prop
  | .fresh entry discard => entry.all Task.isAlone = true ∧ discard.all Task.isAlone = true ∧
    ∀ x, (Task.tokensOf discard).count x = (Task.tokensOf entry).count x
  | .parked stack => Item.Framed stack
  | _ => True

structure Control.Framed (k : Control Task) : Prop where
  stack : Item.Framed k.stack
  saved : ∀ (f : FiberId) s, k.fibers[f]? = some s → s.phase.Framed

namespace Control.Framed

variable {k k' : Control Task} {f : FiberId}

theorem modify (h : k.Framed) {g : Fiber Task → Fiber Task}
    (hg : ∀ s, s.phase.Framed → (g s).phase.Framed) : (k.modify f g).Framed where
  stack := h.stack
  saved i s hs := by
    simp only [Control.modify, Array.getElem?_modify] at hs
    split at hs
    · obtain ⟨s', hs', rfl⟩ := Option.map_eq_some_iff.mp hs
      exact hg s' (h.saved i s' hs')
    · exact h.saved i s hs

theorem phase (h : k.Framed) (f : FiberId) : (k.fiberD f).phase.Framed := by
  unfold Control.fiberD
  cases hs : k.fibers[f]? with
  | none => trivial
  | some s => exact h.saved f s hs

theorem frank (h : k.Framed) (f : FiberId) : k.Frank f := fun entry discard he => by
  have hp := h.phase f
  rw [he] at hp
  exact hp.2.2

theorem honest (h : k.Framed) (f : FiberId) : k.Honest f := fun entry discard he x =>
  Nat.le_of_eq (h.frank f entry discard he x)

private theorem mount {s below : List (Item Task)} {f : FiberId} {forced : Bool}
    (hs : Item.Framed s) (hb : Item.Framed below) : Item.Framed (s ++ .base f forced :: below) :=
  hs.append hb

theorem resume (h : k.Framed) (hr : k.resume f = some k') : k'.Framed := by
  have hp := h.phase f
  have ha (g : Fiber Task → Fiber Task) (hg : ∀ s, (g s).phase = .active) :
      (k.modify f g).Framed := h.modify fun s _ => by rw [hg]; trivial
  unfold Control.resume at hr
  split at hr
  · cases hr
  · rename_i entry discard he
    rw [he] at hp
    obtain rfl := Option.some.inj hr
    exact ⟨mount (Item.framed_alone hp.1) h.stack, (ha (fun s => { s with
      phase := .active, armed := true, started := true }) fun _ => rfl).saved⟩
  · rename_i s he
    rw [he] at hp
    obtain rfl := Option.some.inj hr
    exact ⟨mount hp h.stack, (ha (fun s => { s with phase := .active }) fun _ => rfl).saved⟩
  · obtain rfl := Option.some.inj hr
    exact h
  · obtain rfl := Option.some.inj hr
    exact h

theorem suspend (h : k.Framed) (hr : k.suspend = some k') : k'.Framed := by
  unfold Control.suspend at hr
  obtain ⟨⟨above, f, forced, below⟩, hs, hk⟩ := Option.map_eq_some_iff.mp hr
  have hstack := h.stack
  rw [(Control.split_eq hs).1] at hstack
  obtain ⟨ha, hb⟩ := hstack.split
  simp only at hk
  split at hk
  · subst hk
    exact ⟨hb, h.saved⟩
  · subst hk
    have hm : (k.modify f fun s => { s with phase := .parked above }).Framed :=
      h.modify fun _ _ => ha
    exact ⟨hb, hm.saved⟩

theorem land (h : k.Framed) (f : FiberId) (forced : Bool) : (k.land f forced).Framed := by
  refine h.modify fun s hs => ?_
  split
  · exact hs
  · trivial

theorem destroy (h : k.Framed) (f : FiberId) (panicking : Bool) :
    (k.destroy f panicking).1.Framed := by
  have hp := h.phase f
  have ht : (k.modify f fun s => { s with phase := .taken }).Framed := h.modify fun _ _ => trivial
  unfold Control.destroy
  simp only
  split
  · rename_i entry discard he
    rw [he] at hp
    exact ⟨h.stack.push hp.2.1, ht.saved⟩
  · rename_i s he
    rw [he] at hp
    split
    · exact ⟨h.stack, ht.saved⟩
    · exact ⟨mount hp h.stack, ht.saved⟩
  · exact h
  · exact ht
  · exact ht

theorem unshare (h : k.Framed) (f : FiberId) (panicking : Bool) :
    (k.unshare f panicking).1.Framed := by
  have hm : (k.modify f fun s => { s with handles := s.handles - 1 }).Framed :=
    h.modify fun _ hs => hs
  have hc : ((k.modify f fun s => { s with handles := s.handles - 1 }).modify f
      fun s => { s with cancelling := true }).Framed := hm.modify fun _ hs => hs
  unfold Control.unshare
  simp only
  split
  · exact hc.destroy f panicking
  · exact hm

theorem abandon (h : k.Framed) (f : FiberId) : (k.abandon f).Framed := by
  have hm : (k.modify f Fiber.settle).Framed := h.modify fun s hs => hs
  have ht : ((k.modify f Fiber.settle).modify f fun s => { s with phase := .taken }).Framed :=
    hm.modify fun _ _ => trivial
  unfold Control.abandon
  simp only
  split
  · exact ⟨h.stack, ht.saved⟩
  · exact ⟨h.stack, ht.saved⟩
  · exact hm
  · exact ht
  · exact ht

theorem share (h : k.Framed) (f : FiberId) : (k.share f).Framed := h.modify fun _ hs => hs

theorem create (h : k.Framed) {entry discard : List Task}
    (hp : (Fiber.Phase.fresh entry discard).Framed) : (k.create entry discard).2.Framed where
  stack := h.stack
  saved i s hs := by
    simp only [Control.create, Array.getElem?_push] at hs
    split at hs
    · obtain rfl := Option.some.inj hs
      exact hp
    · exact h.saved i s hs

end Control.Framed

end Switchyard
