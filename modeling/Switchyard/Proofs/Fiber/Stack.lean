import Mathlib.Data.List.Basic
import Switchyard.Fiber.Session
import Switchyard.Proofs.Total

/-!
# What lies on the stacks of a fiber session

The fibers that a stack runs, the values that its frames own, and the order of its tasks: the code
of a fiber stands above the base of that fiber, and what waits for a fiber stands below its base.
-/

namespace Switchyard.Fiber

/-- There is no stack left to enter or to continue. -/
def Phase.isOver {τ : Type} : Phase τ → Bool
  | .ended | .taken => true
  | _ => false

namespace Session

variable {c c' : Control Task} {e e' : Task → Prop} {l l' stk below : List (Item Task)}
  {f g : FiberId} {m : String} {forced : Bool} {t : Task}

def bases (l : List (Item Task)) : List (FiberId × Bool) :=
  l.filterMap fun
    | .task _ => none
    | .base f forced => some (f, forced)

/-- The fibers that a stack runs. -/
def running (l : List (Item Task)) : List FiberId := (bases l).map Prod.fst

/-- The fiber whose code is on top of a stack. -/
def ground (l : List (Item Task)) : Option FiberId := (running l).head?

@[simp] theorem bases_nil : bases [] = [] := rfl
@[simp] theorem bases_task : bases (.task t :: l) = bases l := rfl

@[simp] theorem bases_base : bases (.base f forced :: l) = (f, forced) :: bases l := rfl

@[simp] theorem bases_append : bases (l ++ l') = bases l ++ bases l' := List.filterMap_append

@[simp] theorem bases_tasks (ts : List Task) : bases (ts.map .task) = [] := by
  simp [bases, List.filterMap_map]

@[simp] theorem running_nil : running [] = [] := rfl
@[simp] theorem running_task : running (.task t :: l) = running l := rfl

@[simp] theorem running_base : running (.base f forced :: l) = f :: running l := rfl

@[simp] theorem running_append : running (l ++ l') = running l ++ running l' := by
  simp [running]

@[simp] theorem running_tasks (ts : List Task) : running (ts.map .task) = [] := by simp [running]

@[simp] theorem ground_task : ground (.task t :: l) = ground l := rfl

@[simp] theorem ground_base : ground (.base f forced :: l) = some f := rfl

theorem mem_running : f ∈ running l ↔ ∃ forced, (f, forced) ∈ bases l := by
  simp [running]

theorem mem_running_of_ground (h : ground l = some f) : f ∈ running l :=
  List.mem_of_mem_head? h

def Task.holds (f : FiberId) (m : String) : Task → Nat
  | .frame g marks => if g = f then marks.count m else 0
  | .dropMark g m' => if g = f ∧ m' = m then 1 else 0
  | _ => 0

def holds (f : FiberId) (m : String) : List (Item Task) → Nat
  | [] => 0
  | .task t :: l => t.holds f m + holds f m l
  | .base .. :: l => holds f m l

@[simp] theorem holds_nil : holds f m [] = 0 := rfl
@[simp] theorem holds_task : holds f m (.task t :: l) = t.holds f m + holds f m l := rfl
@[simp] theorem holds_base : holds f m (.base g forced :: l) = holds f m l := rfl

@[simp] theorem holds_append : holds f m (l ++ l') = holds f m l + holds f m l' := by
  induction l with
  | nil => simp
  | cons i l ih => cases i <;> simp [ih, Nat.add_assoc]

@[simp] theorem holds_drops (g : FiberId) (marks : List String) :
    holds f m ((marks.map (Task.dropMark g)).map .task) = (Task.frame g marks).holds f m := by
  induction marks with
  | nil => simp [Task.holds]
  | cons m' marks ih =>
    simp only [List.map_cons, holds_task, ih, Task.holds, List.count_cons, beq_iff_eq]
    by_cases hg : g = f <;> by_cases hm : m' = m <;> simp [hg, hm, Nat.add_comm]

def Over (c : Control Task) (f : FiberId) : Prop :=
  f < c.fibers.size ∧ (c.fiberD f).phase.isOver = true

/-- A task that stays on the stack of a suspended fiber. -/
def Task.isResident : Task → Bool
  | .steps _ | .frame .. | .note .. | .guardEnd _ | .dropMark .. => true
  | _ => false

/-- The tasks above the first base stay there while their fiber is suspended. -/
def Resident : List (Item Task) → Prop
  | .task t :: rest => t.isResident = true ∧ Resident rest
  | _ => True

/-- What a task needs below it. -/
def Task.Suits (c : Control Task) (rest : List (Item Task)) : Task → Prop
  | .steps _ => ∃ f marks below, rest = .task (.frame f marks) :: below
  | .frame f _ => ground rest = some f ∧ Resident rest
  | .dropMark f _ => ground rest = some f
  | .dropHandle f | .settle f => Over c f ∧ f ∉ running rest
  | .dropAll => rest = []
  | _ => True

/-- A stack in order; `e` excuses its topmost task. The handle that a resumer holds stands right
below the base of its fiber. -/
def Below (c : Control Task) : (Task → Prop) → List (Item Task) → Prop
  | _, [] => True
  | e, .task t :: rest => (t.Suits c rest ∨ e t) ∧ Below c (fun _ => False) rest
  | _, .base f forced :: rest =>
    (if forced then Over c f else (c.fiberD f).isActive = true) ∧ f ∉ running rest ∧
      Below c (fun t => forced = false ∧ t = .dropHandle f) rest

abbrev Strict (c : Control Task) (l : List (Item Task)) : Prop := Below c (fun _ => False) l

/-- What a task of a suspended fiber is like. -/
def Task.Stays (f : FiberId) (rest : List (Item Task)) : Task → Prop
  | .steps _ => ∃ marks below, rest = .task (.frame f marks) :: below
  | .frame g _ | .dropMark g _ => g = f
  | .note .. | .guardEnd _ => True
  | _ => False

def Segment (f : FiberId) : List (Item Task) → Prop
  | [] => True
  | .task t :: rest => t.Stays f rest ∧ Segment f rest
  | .base .. :: _ => False

@[simp] theorem below_nil : Below c e [] := trivial

theorem Below.imp (h : Below c e l) (he : ∀ t, e t → e' t) : Below c e' l := by
  cases l with
  | nil => trivial
  | cons i l =>
    cases i with
    | task t => exact ⟨h.1.imp id (he t), h.2⟩
    | base f forced => exact h

theorem Strict.loosen (h : Strict c l) : Below c e l := h.imp fun _ hf => hf.elim

theorem Below.strict (h : Below c e l) (he : ∀ t rest, l = .task t :: rest → e t → t.Suits c rest) :
    Strict c l := by
  cases l with
  | nil => trivial
  | cons i l =>
    cases i with
    | task t => exact ⟨.inl (h.1.elim id (he t l rfl)), h.2⟩
    | base f forced => exact h

theorem Task.Suits.mono (ho : ∀ f, Over c f → Over c' f) (h : t.Suits c l) : t.Suits c' l := by
  cases t with
  | dropHandle f | settle f => exact ⟨ho f h.1, h.2⟩
  | _ => exact h

theorem Below.mono (h : Below c e l) (ho : ∀ f, Over c f → Over c' f)
    (ha : ∀ f ∈ running l, (c.fiberD f).isActive = true → (c'.fiberD f).isActive = true) :
    Below c' e l := by
  induction l generalizing e with
  | nil => trivial
  | cons i l ih =>
    cases i with
    | task t => exact ⟨h.1.imp (Task.Suits.mono ho) id, ih h.2 ha⟩
    | base f forced =>
      refine ⟨?_, h.2.1, ih h.2.2 fun g hg => ha g (List.mem_cons_of_mem _ hg)⟩
      cases forced with
      | true => exact ho f h.1
      | false => exact ha f List.mem_cons_self h.1

theorem Below.spent (h : Below c e l) (hf : (f, true) ∈ bases l) : Over c f := by
  induction l generalizing e with
  | nil => cases hf
  | cons i l ih =>
    cases i with
    | task t => exact ih h.2 hf
    | base g forced =>
      rcases List.mem_cons.mp hf with heq | hf
      · cases heq
        exact h.1
      · exact ih h.2.2 hf

theorem Below.isActive (h : Below c e l) (hf : (f, false) ∈ bases l) :
    (c.fiberD f).isActive = true := by
  induction l generalizing e with
  | nil => cases hf
  | cons i l ih =>
    cases i with
    | task t => exact ih h.2 hf
    | base g forced =>
      rcases List.mem_cons.mp hf with heq | hf
      · cases heq
        exact h.1
      · exact ih h.2.2 hf

theorem Below.holds_eq_zero (h : Below c e l) (hf : f ∉ running l)
    (he : ∀ t rest, l = .task t :: rest → e t → t.holds f m = 0) : holds f m l = 0 := by
  induction l generalizing e with
  | nil => rfl
  | cons i l ih =>
    cases i with
    | task t =>
      have hrest : holds f m l = 0 := ih h.2 hf fun _ _ _ hf => hf.elim
      have htask : t.holds f m = 0 := by
        rcases h.1 with hs | hs
        · cases t with
          | frame g marks =>
            have hg : g ≠ f := by
              rintro rfl
              exact hf (mem_running_of_ground hs.1)
            simp [Task.holds, hg]
          | dropMark g m' =>
            have hg : g ≠ f := by
              rintro rfl
              exact hf (mem_running_of_ground hs)
            simp [Task.holds, hg]
          | _ => rfl
        · exact he t l rfl hs
      simp [htask, hrest]
    | base g forced =>
      refine ih h.2.2 (fun hm => hf (List.mem_cons_of_mem _ hm)) ?_
      rintro t rest - ⟨-, rfl⟩
      rfl

theorem Strict.holds_eq_zero (h : Strict c l) (hf : f ∉ running l) : holds f m l = 0 :=
  Below.holds_eq_zero h hf fun _ _ _ hf => hf.elim

theorem Segment.bases (h : Segment f stk) : bases stk = [] := by
  induction stk with
  | nil => rfl
  | cons i stk ih =>
    cases i with
    | task t => exact ih h.2
    | base g forced => exact h.elim

theorem Segment.holds_eq_zero (h : Segment f stk) (hg : g ≠ f) : holds g m stk = 0 := by
  induction stk with
  | nil => rfl
  | cons i stk ih =>
    cases i with
    | task t =>
      rw [holds_task, ih h.2]
      have ht := h.1
      cases t with
      | frame g' marks => cases ht; simp [Task.holds, hg.symm]
      | dropMark g' m' => cases ht; simp [Task.holds, hg.symm]
      | _ => rfl
    | base g' forced => exact h.elim

theorem Segment.resident (h : Segment f stk) : Resident (stk ++ .base g forced :: below) := by
  induction stk with
  | nil => trivial
  | cons i stk ih =>
    cases i with
    | task t =>
      refine ⟨?_, ih h.2⟩
      have ht := h.1
      cases t <;> first | rfl | exact ht.elim
    | base g' forced => exact h.elim

theorem Segment.strict (h : Segment f stk) (hb : Strict c (.base f forced :: below)) :
    Strict c (stk ++ .base f forced :: below) := by
  induction stk with
  | nil => exact hb
  | cons i stk ih =>
    cases i with
    | task t =>
      have hground : ground (stk ++ .base f forced :: below) = some f := by
        simp [ground, running, h.2.bases]
      refine ⟨.inl ?_, ih h.2⟩
      have ht := h.1
      cases t with
      | steps steps =>
        obtain ⟨marks, rest, rfl⟩ := ht
        exact ⟨f, marks, _, rfl⟩
      | frame g marks =>
        cases ht
        exact ⟨hground, h.2.resident⟩
      | dropMark g m =>
        cases ht
        exact hground
      | note | guardEnd => trivial
      | _ => exact ht.elim
    | base g forced => exact h.elim

theorem Strict.segment (h : Strict c (stk ++ .base f forced :: below)) (hs : bases stk = [])
    (hr : Resident (stk ++ .base f forced :: below)) :
    Segment f stk ∧ Strict c (.base f forced :: below) := by
  induction stk with
  | nil => exact ⟨trivial, h⟩
  | cons i stk ih =>
    cases i with
    | task t =>
      have hground : ground (stk ++ .base f forced :: below) = some f := by
        have : bases stk = [] := hs
        simp [ground, running, this]
      obtain ⟨hseg, hbase⟩ := ih h.2 hs hr.2
      refine ⟨⟨?_, hseg⟩, hbase⟩
      have ht := h.1.resolve_right id
      have hres := hr.1
      cases t with
      | steps steps =>
        obtain ⟨g, marks, rest, heq⟩ := ht
        cases stk with
        | nil => cases heq
        | cons i stk =>
          obtain ⟨rfl, -⟩ := List.cons.inj heq
          obtain rfl : g = f := hseg.1
          exact ⟨marks, stk, rfl⟩
      | frame g marks => exact Option.some.inj (ht.1.symm.trans hground)
      | dropMark g m => exact Option.some.inj (ht.symm.trans hground)
      | note | guardEnd => trivial
      | _ => cases hres
    | base g forced => cases hs

theorem split_eq {above : List (Item Task)}
    (h : Control.split l = some (above, f, forced, below)) :
    l = above ++ .base f forced :: below ∧ bases above = [] := by
  induction l generalizing above with
  | nil => cases h
  | cons i l ih =>
    cases i with
    | task t =>
      simp only [Control.split, Option.map_eq_some_iff] at h
      obtain ⟨⟨above', f', forced', below'⟩, hs, heq⟩ := h
      cases heq
      obtain ⟨rfl, hb⟩ := ih hs
      exact ⟨rfl, hb⟩
    | base g b =>
      cases h
      exact ⟨rfl, rfl⟩

theorem split_isSome (h : f ∈ running l) : ∃ x, Control.split l = some x := by
  induction l with
  | nil => cases h
  | cons i l ih =>
    cases i with
    | task t =>
      obtain ⟨x, hx⟩ := ih h
      simp [Control.split, hx]
    | base g b => exact ⟨_, rfl⟩

end Session

end Switchyard.Fiber
