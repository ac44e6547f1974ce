import Switchyard.Proofs.Effect.Basic

/-!
# What lies on a control stack

The places where fibers end, the fibers that tasks mention, and the destructions that are not
through: each of those holds the lock once.
-/

namespace Switchyard

namespace Task

/-- The end of a destruction, which gives the lock back. -/
def isUnlock : Task → Bool
  | reclaim _ | unlock => true
  | _ => false

/-- The fibers that a task uses without asking for their thread. -/
def fibers : Task → List FiberId
  | unshare f | settle f | suspend _ f | driveRegister _ _ f | driveResume _ _ f
  | driveBack _ _ f | entry _ f => [f]
  | _ => []

def pins : Task → List (Pinned FiberId)
  | dropPinned p => [p]
  | _ => []

/-- No lock, no fiber. -/
def isLight (t : Task) : Bool := !t.isUnlock && t.fibers.isEmpty && t.pins.isEmpty

theorem isLight_of_isPlain {t : Task} (h : t.isPlain = true) : t.isLight = true := by
  cases t <;> first | rfl | cases h

end Task

namespace Item

def marks (s : List (Item Task)) : Nat :=
  s.countP fun
    | .task t => t.isUnlock
    | .base .. => false

def bases (s : List (Item Task)) : List (FiberId × Bool) :=
  s.filterMap fun
    | .task _ => none
    | .base f forced => some (f, forced)

def fibers (s : List (Item Task)) : List FiberId :=
  s.flatMap fun
    | .task t => t.fibers
    | .base f _ => [f]

def pins (s : List (Item Task)) : List (Pinned FiberId) :=
  s.flatMap fun
    | .task t => t.pins
    | .base .. => []

section

variable (s s' : List (Item Task))

@[simp] theorem marks_nil : marks [] = 0 := rfl
@[simp] theorem bases_nil : bases [] = [] := rfl
@[simp] theorem fibers_nil : fibers [] = [] := rfl
@[simp] theorem pins_nil : pins [] = [] := rfl

@[simp] theorem marks_append : marks (s ++ s') = marks s + marks s' := List.countP_append

@[simp] theorem bases_append : bases (s ++ s') = bases s ++ bases s' := List.filterMap_append

@[simp] theorem fibers_append : fibers (s ++ s') = fibers s ++ fibers s' := List.flatMap_append

@[simp] theorem pins_append : pins (s ++ s') = pins s ++ pins s' := List.flatMap_append

@[simp] theorem marks_task (t : Task) :
    marks (.task t :: s) = marks s + if t.isUnlock = true then 1 else 0 := by
  simp [marks, List.countP_cons]

@[simp] theorem marks_base (f : FiberId) (forced : Bool) :
    marks (.base f forced :: s) = marks s := by
  simp [marks]

@[simp] theorem bases_task (t : Task) : bases (.task t :: s) = bases s := rfl

@[simp] theorem bases_base (f : FiberId) (forced : Bool) :
    bases (.base f forced :: s) = (f, forced) :: bases s := rfl

@[simp] theorem fibers_task (t : Task) : fibers (.task t :: s) = t.fibers ++ fibers s := rfl

@[simp] theorem fibers_base (f : FiberId) (forced : Bool) :
    fibers (.base f forced :: s) = f :: fibers s := rfl

@[simp] theorem pins_task (t : Task) : pins (.task t :: s) = t.pins ++ pins s := rfl

@[simp] theorem pins_base (f : FiberId) (forced : Bool) :
    pins (.base f forced :: s) = pins s := rfl

end

@[simp] theorem bases_map_task (ts : List Task) : bases (ts.map .task) = [] := by
  simp [bases, List.filterMap_map]

private theorem light {t : Task} (h : t.isLight = true) :
    t.isUnlock = false ∧ t.fibers = [] ∧ t.pins = [] := by
  simpa [Task.isLight, and_assoc] using h

theorem light_map {ts : List Task} (h : ts.all Task.isLight = true) :
    marks (ts.map .task) = 0 ∧ fibers (ts.map .task) = [] ∧ pins (ts.map .task) = [] := by
  induction ts with
  | nil => exact ⟨rfl, rfl, rfl⟩
  | cons t ts ih =>
    simp only [List.all_cons, Bool.and_eq_true] at h
    obtain ⟨hu, hf, hp⟩ := light h.1
    obtain ⟨ihm, ihf, ihp⟩ := ih h.2
    simp [hu, hf, hp, ihm, ihf, ihp]

/-- The same destructions and bases, and no fiber that was not there. -/
structure Similar (s s' : List (Item Task)) : Prop where
  marks : marks s' = marks s
  bases : bases s' = bases s
  fibers : ∀ f ∈ fibers s', f ∈ fibers s
  pins : ∀ p ∈ pins s', p ∈ pins s

namespace Similar

variable {s s' s'' : List (Item Task)}

theorem refl (s : List (Item Task)) : Similar s s := ⟨rfl, rfl, fun _ h => h, fun _ h => h⟩

theorem trans (h : Similar s s') (h' : Similar s' s'') : Similar s s'' where
  marks := h'.marks.trans h.marks
  bases := h'.bases.trans h.bases
  fibers f hf := h.fibers f (h'.fibers f hf)
  pins p hp := h.pins p (h'.pins p hp)

theorem append (h : Similar s s') (x : List (Item Task)) : Similar (x ++ s) (x ++ s') where
  marks := by simp [h.marks]
  bases := by simp [h.bases]
  fibers f := by
    simp only [fibers_append, List.mem_append]
    exact Or.imp id (h.fibers f)
  pins p := by
    simp only [pins_append, List.mem_append]
    exact Or.imp id (h.pins p)

theorem cons_light {t : Task} (h : t.isLight = true) : Similar s (.task t :: s) := by
  obtain ⟨hu, hf, hp⟩ := light h
  constructor <;> simp [hu, hf, hp]

theorem pop {t : Task} (h : t.isUnlock = false) : Similar (.task t :: s) s :=
  ⟨by simp [h], rfl, fun _ hf => by simp [hf], fun _ hp => by simp [hp]⟩

theorem push {ts : List Task} (h : ts.all Task.isLight = true) :
    Similar s (ts.map .task ++ s) := by
  obtain ⟨hm, hf, hp⟩ := light_map h
  constructor <;> simp [hm, hf, hp]

theorem modifyFrameOf (g : Frame → Frame) (s : List (Item Task)) :
    Similar s (World.modifyFrameOf g s) := by
  induction s with
  | nil => exact refl []
  | cons i s ih =>
    unfold World.modifyFrameOf
    split
    · rename_i h
      cases h
    · rename_i f rest h
      obtain ⟨rfl, rfl⟩ := List.cons.inj h
      exact ⟨rfl, rfl, fun _ h => h, fun _ h => h⟩
    · rename_i j rest _ h
      obtain ⟨rfl, rfl⟩ := List.cons.inj h
      exact ih.append [i]

end Similar

end Item

end Switchyard
