import Switchyard.Proofs.Fiber.Stack

/-!
# The course of a fiber

What happens to fibers and their values while a session runs. A fiber is entered at most once, then
it suspends and returns in turn until it is over.
-/

namespace Switchyard.Fiber.Session

/-- What a step does to a fiber or to one of its values. -/
inductive Event where
  /-- A frame or the entry of the fiber has come to own a value. -/
  | made (f : FiberId) (m : String)
  | dropped (f : FiberId) (m : String)
  | entered (f : FiberId)
  | suspended (f : FiberId)
  /-- The suspend has returned. -/
  | returned (f : FiberId)
  /-- Given up before it was finished. -/
  | abandoned (f : FiberId)
  deriving DecidableEq

namespace Event

def fiber : Event → FiberId
  | made f _ | dropped f _ | entered f | suspended f | returned f | abandoned f => f

def isTurn : Event → Bool
  | entered _ | suspended _ | returned _ => true
  | _ => false

end Event

def resumed (c : Control Task) (f : FiberId) : List Event :=
  match (c.fiberD f).phase with
  | .fresh .. => [.entered f]
  | .parked _ => [.returned f]
  | _ => []

def givenUp (c : Control Task) (f : FiberId) : List Event :=
  match (c.fiberD f).phase with
  | .fresh .. | .parked _ => [.abandoned f]
  | _ => []

def Step.events (s : Session) : Step → List Event
  | .create _ _ x => (x.map (Event.made s.control.fibers.size)).toList
  | .resume n => (s.table.find? n).elim [] (resumed s.control)
  | .abandon n => (s.table.find? n).elim [] (givenUp s.control)
  | _ => []

def Step.eventsOn (s : Session) (f : FiberId) : Step → List Event
  | .suspend => if (s.control.fiberD f).armed then [.suspended f] else []
  | .mark m => [.made f m]
  | st => st.events s

/-- What the next step of the machine does. -/
def events (s : Session) : List Event :=
  match s.control.stack with
  | .task (.dropMark f m) :: _ => [.dropped f m]
  | .task (.outer (st :: _)) :: _ => st.events s
  | .task (.steps (st :: _)) :: below => st.eventsOn s ((frame? below).getD (0, [])).1
  | _ => []

def next? (s : Session) : Option Step :=
  match s.control.stack with
  | .task (.outer (st :: _)) :: _ | .task (.steps (st :: _)) :: _ => some st
  | _ => none

/-- The fibers that a step resumes, unwinds, gives up, or of whose handles it makes or drops one. -/
def Step.targets (s : Session) : Step → List FiberId
  | .resume n | .unwind n | .abandon n | .drop n | .create n .. => (s.table.find? n).toList
  | .share n n' => (s.table.find? n).toList ++ (s.table.find? n').toList
  | _ => []

/-- The next step is made from outside the fibers that it is about, and no stack that is being
unwound suspends again. -/
structure Heeds (s : Session) : Prop where
  outside : ∀ st ∈ s.next?, ∀ f ∈ st.targets s, f ∉ running s.control.stack
  upright : s.next? = some .suspend → ∀ f, (bases s.control.stack).head? ≠ some (f, true)

/-- From `s` on the machine has come to a session, and this is what happened, the latest first. -/
inductive Run (s : Session) : List Event → Session → Prop where
  | refl : Run s [] s
  | step {es : List Event} {s₁ s₂ : Session} (h : Run s es s₁) (hh : Heeds s₁)
      (hs : s₁.step = some s₂) : Run s (s₁.events ++ es) s₂

/-- The turns of a fiber in order. -/
def course (f : FiberId) (es : List Event) : List Event :=
  (es.filter fun e => e.isTurn && e.fiber == f).reverse

/-- The entry starts, then each suspend returns before the next. -/
def laps (f : FiberId) (n : Nat) : List Event :=
  .entered f :: (List.replicate n [.suspended f, .returned f]).flatten

variable {c c' : Control Task} {es ev : List Event} {f g : FiberId} {m : String} {n : Nat}

theorem course_append : course f (ev ++ es) = course f es ++ course f ev := by
  simp [course]

@[simp] theorem course_nil : course f [] = [] := rfl

theorem course_eq_nil (h : ∀ e ∈ ev, e.fiber = f → e.isTurn = false) : course f ev = [] := by
  simp only [course, List.reverse_eq_nil_iff, List.filter_eq_nil_iff, Bool.and_eq_true,
    beq_iff_eq, not_and]
  rintro e he ht rfl
  simp [h e he rfl] at ht

theorem laps_succ : laps f (n + 1) = laps f n ++ [.suspended f, .returned f] := by
  simp [laps, List.replicate_succ']

/-- What a fiber owns outside the control stack. -/
def kept (f : FiberId) (m : String) : Phase Task → Nat
  | .fresh _ discard => holds f m (discard.map .task)
  | .parked stack => holds f m stack
  | _ => 0

/-- How many values `m` a fiber still owns. -/
def held (c : Control Task) (f : FiberId) (m : String) : Nat :=
  holds f m c.stack + kept f m (c.fiberD f).phase

/-- How many of its values lie on stacks that were given up. -/
def forgone (c : Control Task) (f : FiberId) (m : String) : Nat :=
  tally (holds f m) c.lost

/-- The fiber is over and has nothing left on the control stack. -/
structure Done (c : Control Task) (f : FiberId) : Prop where
  spent : Over c f
  idle : f ∉ running c.stack
  bare : ∀ m, holds f m c.stack = 0

def drops (f : FiberId) (mark : Option String) : List Task := mark.toList.map (.dropMark f)

/-- What an entry runs: its body in a first frame, then the drops of what it owns. -/
def opening (f : FiberId) (steps : List Step) (mark : Option String) : List Task :=
  [.steps steps, .frame f []] ++ drops f mark

/-- How far a fiber has come. -/
inductive Stage (es : List Event) (c : Control Task) (f : FiberId) : Prop where
  | unborn (hf : c.fibers.size ≤ f) (he : ∀ e ∈ es, e.fiber ≠ f) (hr : f ∉ running c.stack)
  | fresh {steps : List Step} {mark : Option String}
      (hp : (c.fiberD f).phase = .fresh (opening f steps mark) (drops f mark))
      (hr : f ∉ running c.stack) (hc : course f es = [])
  | active {n : Nat} (hp : (c.fiberD f).phase = .active) (hb : (f, false) ∈ bases c.stack)
      (ha : (c.fiberD f).armed = true) (hc : course f es = laps f n)
  | parked {stack : List (Item Task)} {n : Nat} (hp : (c.fiberD f).phase = .parked stack)
      (hs : Segment f stack) (hr : f ∉ running c.stack) (ha : (c.fiberD f).armed = true)
      (hc : course f es = laps f n ++ [.suspended f])
  | unwinding {n : Nat} (ho : Over c f) (hb : (f, true) ∈ bases c.stack)
      (hk : (c.fiberD f).cancelling = true) (hc : course f es <+: laps f n)
  | spent {n : Nat} (ho : Over c f) (hr : f ∉ running c.stack) (hc : course f es <+: laps f n)

structure Sane (es : List Event) (c : Control Task) (f : FiberId) : Prop where
  stage : Stage es c f
  /-- Each value is owned, dropped or on a stack that was given up. -/
  values : ∀ m, es.count (.made f m) = es.count (.dropped f m) + (held c f m + forgone c f m)
  lost : ∀ m, forgone c f m ≠ 0 → .abandoned f ∈ es
  abandoned : .abandoned f ∈ es → Done c f
  finished : (c.fiberD f).finished = true → Done c f ∧ (c.fiberD f).armed = false
  cancelling : (c.fiberD f).cancelling = true → Over c f

/-- Fibers that differ in their handles, and in whether they were started. -/
structure Same (s s' : Fiber Task) : Prop where
  phase : s'.phase = s.phase
  armed : s'.armed = s.armed
  finished : s'.finished = s.finished
  cancelling : s'.cancelling = s.cancelling

theorem Same.refl (s : Fiber Task) : Same s s := ⟨rfl, rfl, rfl, rfl⟩

/-- Only values of `g` change, if anything. -/
structure Kept (ev : List Event) (c c' : Control Task) (g : FiberId) : Prop where
  same : Same (c.fiberD g) (c'.fiberD g)
  size : g < c'.fibers.size ↔ g < c.fibers.size
  bases : ∀ b, (g, b) ∈ bases c'.stack ↔ (g, b) ∈ bases c.stack
  values : ∀ m, holds g m c.stack + ev.count (.made g m) =
    ev.count (.dropped g m) + holds g m c'.stack
  forgone : ∀ m, forgone c' g m = forgone c g m
  turns : ∀ e ∈ ev, e.fiber = g → e.isTurn = false
  born : ∀ e ∈ ev, e.fiber = g → g < c.fibers.size
  made : ∀ m, .made g m ∈ ev → g ∈ running c.stack
  abandoned : .abandoned g ∉ ev

namespace Kept

variable (h : Kept ev c c' g)

include h

theorem running : g ∈ running c'.stack ↔ g ∈ running c.stack := by
  simp [mem_running, h.bases]

theorem spent : Over c' g ↔ Over c g := by
  simp [Over, h.size, h.same.phase]

theorem held (m : String) : held c' g m + holds g m c.stack = held c g m + holds g m c'.stack := by
  simp only [Session.held, h.same.phase]
  omega

theorem done (hd : Done c g) : Done c' g where
  spent := h.spent.mpr hd.spent
  idle := fun hr => hd.idle (h.running.mp hr)
  bare m := by
    have hm : ev.count (.made g m) = 0 := List.count_eq_zero.mpr fun hm => hd.idle (h.made m hm)
    have := h.values m
    have := hd.bare m
    omega

theorem stage (hs : Stage es c g) : Stage (ev ++ es) c' g := by
  have hcourse : course g (ev ++ es) = course g es := by
    rw [course_append, course_eq_nil h.turns, List.append_nil]
  cases hs with
  | unborn hf he hr =>
    have hev : ∀ e ∈ ev, e.fiber ≠ g := fun e hm hg => absurd (h.born e hm hg) (Nat.not_lt.mpr hf)
    refine .unborn (Nat.not_lt.mp fun hl => Nat.not_lt.mpr hf (h.size.mp hl)) ?_ fun hr' =>
      hr (h.running.mp hr')
    exact fun e he' => (List.mem_append.mp he').elim (hev e) (he e)
  | fresh hp hr hc =>
    exact .fresh (h.same.phase.trans hp) (fun hr' => hr (h.running.mp hr')) (hcourse.trans hc)
  | active hp hb ha hc =>
    exact .active (h.same.phase.trans hp) ((h.bases _).mpr hb) (h.same.armed.trans ha)
      (hcourse.trans hc)
  | parked hp hs hr ha hc =>
    exact .parked (h.same.phase.trans hp) hs (fun hr' => hr (h.running.mp hr'))
      (h.same.armed.trans ha) (hcourse.trans hc)
  | unwinding ho hb hk hc =>
    exact .unwinding (h.spent.mpr ho) ((h.bases _).mpr hb) (h.same.cancelling.trans hk) (hcourse ▸ hc)
  | spent ho hr hc =>
    exact .spent (h.spent.mpr ho) (fun hr' => hr (h.running.mp hr')) (hcourse ▸ hc)

theorem sane (hs : Sane es c g) : Sane (ev ++ es) c' g where
  stage := h.stage hs.stage
  values m := by
    have := hs.values m
    have := h.values m
    have := h.held m
    rw [List.count_append, List.count_append, h.forgone]
    omega
  lost m hm := List.mem_append_right _ (hs.lost m (h.forgone m ▸ hm))
  abandoned hm := h.done (hs.abandoned ((List.mem_append.mp hm).resolve_left h.abandoned))
  finished hf := by
    obtain ⟨hd, ha⟩ := hs.finished (h.same.finished ▸ hf)
    exact ⟨h.done hd, h.same.armed.trans ha⟩
  cancelling hc := h.spent.mpr (hs.cancelling (h.same.cancelling ▸ hc))

end Kept

/-- Only fiber `f` and its values change. -/
structure Elsewhere (f : FiberId) (c c' : Control Task) : Prop where
  size : c'.fibers.size = c.fibers.size
  same : ∀ g, g ≠ f → Same (c.fiberD g) (c'.fiberD g)
  bases : ∀ g, g ≠ f → ∀ b, (g, b) ∈ bases c'.stack ↔ (g, b) ∈ bases c.stack
  holds : ∀ g, g ≠ f → ∀ m, holds g m c'.stack = holds g m c.stack
  forgone : ∀ g, g ≠ f → ∀ m, forgone c' g m = forgone c g m

theorem Elsewhere.kept (h : Elsewhere f c c') (hg : g ≠ f) (hev : ∀ e ∈ ev, e.fiber = f) :
    Kept ev c c' g := by
  have hno : ∀ e ∈ ev, e.fiber ≠ g := fun e he heq => hg (heq.symm.trans (hev e he))
  exact {
    same := h.same g hg
    size := by rw [h.size]
    bases := h.bases g hg
    values := fun m => by
      rw [List.count_eq_zero.mpr fun hm => hno _ hm rfl,
        List.count_eq_zero.mpr fun hm => hno _ hm rfl, h.holds g hg m]
      omega
    forgone := h.forgone g hg
    turns := fun e he heq => absurd heq (hno e he)
    born := fun e he heq => absurd heq (hno e he)
    made := fun m hm => absurd rfl (hno _ hm)
    abandoned := fun hm => hno _ hm rfl }

end Switchyard.Fiber.Session
