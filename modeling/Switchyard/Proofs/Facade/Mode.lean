import Switchyard.Proofs.Stack

/-!
# Where a thread stands

A few tasks mark a control stack: those of the driver, those by which a fiber gives control back
and takes it again, and the end of a release. Read from the bottom to the top, the marks and the
bases of a control stack tell what the thread is doing.
-/

namespace Switchyard

/-- What a task means for the place it stands in. -/
inductive Role where
  /-- May stand wherever code runs. -/
  | code
  | fail
  | release
  | closing
  /-- A switch from the original stack has been accepted. -/
  | asked
  | driving
  | ready (t : Ref) (f : FiberId)
  | starting (t : Ref) (f : FiberId)
  | arrived
  | back (t : Ref) (f : FiberId)
  | entry (f : FiberId)
  | resumed
  | suspend (f : FiberId)
  | released (r : Ref)
  deriving DecidableEq

namespace Task

def role : Task → Role
  | fail _ => .fail
  | release .. => .release
  | dropHubFields _ | teardown _ | teardownQueues .. | teardownCurrent .. | teardownEnd ..
  | exitThread | exitSlots => .closing
  | drive .. => .asked
  | driveTarget .. | driveKilled .. | driveRefused .. | driveFinished .. | driveSuspended .. =>
    .driving
  | driveRegister _ t f => .ready t f
  | driveResume _ t f => .starting t f
  | driveMain .. | endDriving _ => .arrived
  | driveBack _ t f => .back t f
  | entry _ f => .entry f
  | resumed _ => .resumed
  | suspend _ f => .suspend f
  | released _ r => .released r
  | _ => .code

theorem role_of_isPlain {t : Task} (h : t.isPlain = true) : t.role = .code := by
  cases t <;> first | rfl | cases h

end Task

/-- How far the work above a base has come. -/
inductive Spot where
  /-- Nothing is left. -/
  | landed
  | code
  /-- The code has just been given control. -/
  | resumed
  /-- The code is about to give control away. -/
  | suspended
  deriving DecidableEq

/-- What the original stack of a thread is doing, and the fiber that runs above it. -/
inductive Ground where
  | idle
  | asked
  | driving
  /-- The driver is about to make `t` the current greenlet. -/
  | ready (t : Ref) (f : FiberId)
  /-- The driver is about to enter the fiber of `t`, which is current. -/
  | starting (t : Ref) (f : FiberId)
  /-- The driver is through. -/
  | arrived
  /-- The fiber of `t` has given control back. -/
  | back (t : Ref) (f : FiberId)
  | on (t : Ref) (f : FiberId) (x : Spot)
  deriving DecidableEq

/-- What the original stack does once it has come to such a task. -/
def Role.ground? : Role → Option Ground
  | closing => some .idle
  | asked => some .asked
  | driving => some .driving
  | ready t f => some (.ready t f)
  | starting t f => some (.starting t f)
  | arrived => some .arrived
  | back t f => some (.back t f)
  | _ => none

/-- The release that is under way. -/
inductive Unwinding where
  | none
  /-- The stack of `r` is gone, or there was none. -/
  | bare (r : Ref)
  | off (r : Ref) (f : FiberId) (x : Spot)
  deriving DecidableEq

def Unwinding.victim? : Unwinding → Option Ref
  | none => .none
  | bare r | off r .. => some r

structure Mode where
  ground : Ground
  unwinding : Unwinding
  deriving DecidableEq

namespace Spot

/-- The next task above the base of `f`. -/
def step (f : FiberId) (t : Task) : Spot → Option Spot
  | landed => if t.role = .entry f then some code else none
  | code =>
    match t.role with
    | .code | .fail => some code
    | .resumed => some resumed
    | .suspend g => if g = f then some suspended else none
    | _ => none
  | _ => none

/-- The same while the stack is unwound: what is left over is dropped, and panics go on. -/
def unwind (f : FiberId) (t : Task) : Spot → Option Spot
  | landed =>
    match t.role with
    | .code | .fail => some landed
    | .entry g => if g = f then some code else none
    | _ => none
  | code =>
    match t.role with
    | .code | .fail => some code
    | .resumed => some resumed
    | _ => none
  | resumed => if t.role = .fail then some code else none
  | suspended => none

/-- The spot that the tasks of a stack lead to, from the base of `f` on. -/
def walk (step : Task → Spot → Option Spot) : List (Item Task) → Option Spot
  | [] => some landed
  | .task t :: s => (walk step s).bind (step t)
  | .base .. :: _ => none

theorem walk_unwind {f : FiberId} {s : List (Item Task)} {x : Spot} (h : walk (step f) s = some x)
    (hx : x ≠ suspended) : walk (unwind f) s = some x := by
  induction s generalizing x with
  | nil => exact h
  | cons i s ih =>
    cases i with
    | base => cases h
    | task t =>
      obtain ⟨y, hy, hs⟩ := Option.bind_eq_some_iff.mp h
      have hn : y ≠ suspended := by rintro rfl; cases hs
      have hu : unwind f t y = some x := by
        cases y with
        | landed =>
          simp only [step] at hs
          split at hs
          · rename_i hr
            simpa [unwind, hr] using hs
          · cases hs
        | code =>
          simp only [step] at hs
          split at hs
          · rename_i hr
            simpa [unwind, hr] using hs
          · rename_i hr
            simpa [unwind, hr] using hs
          · rename_i hr
            simpa [unwind, hr] using hs
          · split at hs
            · exact absurd (Option.some.inj hs).symm hx
            · cases hs
          · cases hs
        | resumed | suspended => cases hs
      exact Option.bind_eq_some_iff.mpr ⟨y, ih hy hn, hu⟩

end Spot

namespace Ground

/-- Nothing runs above the original stack, which runs code. -/
def isCalm : Ground → Bool
  | idle | driving | ready .. | starting .. | arrived => true
  | _ => false

def isOpen : Ground → Bool
  | on _ _ .code => true
  | g => g.isCalm

def isRunning : Ground → Bool
  | back .. | on .. => true
  | _ => false

def isDriving : Ground → Bool
  | idle | asked => false
  | _ => true

/-- The hub may hold what the fiber has posted. -/
def isPosting : Ground → Bool
  | back .. | on _ _ .landed | on _ _ .suspended => true
  | _ => false

/-- The driver is not at work, or is through. -/
def isHome : Ground → Bool
  | idle | asked | arrived => true
  | _ => false

/-- The greenlet that has its turn, with its fiber. -/
def turn? : Ground → Option (Ref × FiberId)
  | ready t f | starting t f | back t f | on t f _ => some (t, f)
  | _ => none

/-- The greenlet whose stack is on the thread, or has just left it. -/
def holds : Ground → Option (Ref × FiberId)
  | back t f | on t f _ => some (t, f)
  | _ => none

/-- The greenlet that has its turn was made current. -/
def isSeated : Ground → Bool
  | starting .. | back .. | on .. => true
  | _ => false

/-- The next task, from the bottom up. -/
def step (t : Task) (g : Ground) : Option Ground :=
  match g with
  | on r f x => (x.step f t).map (on r f)
  | g =>
    match t.role with
    | .code | .fail | .release => if g.isCalm then some g else none
    | .closing => if g = idle then some idle else none
    | .asked => if g = idle then some asked else none
    | .driving => if g = idle then some driving else none
    | .ready t f => if g = idle then some (ready t f) else none
    | .starting t f => if g = idle then some (starting t f) else none
    | .arrived => if g = idle then some arrived else none
    | .back t f => if g = idle then some (back t f) else none
    | _ => none

theorem step_code {t : Task} {g : Ground} (hg : g.isOpen = true)
    (h : t.role = .code ∨ t.role = .fail) : g.step t = some g := by
  cases g with
  | on r f x => rcases h with h | h <;> cases x <;> simp_all [isOpen, isCalm, step, Spot.step]
  | _ => rcases h with h | h <;> simp_all [isOpen, isCalm, step]

end Ground

namespace Mode

def idle : Mode := ⟨.idle, .none⟩

def isOpen (m : Mode) : Bool :=
  match m.unwinding with
  | .none => m.ground.isOpen
  | .bare _ | .off _ _ .code | .off _ _ .landed => true
  | .off .. => false

/-- The next item of a control stack, from the bottom up. -/
def step (i : Item Task) (m : Mode) : Option Mode :=
  match i, m with
  | .task t, ⟨g, .none⟩ =>
    match t.role with
    | .released r => if g.isCalm then some ⟨g, .bare r⟩ else none
    | _ => (g.step t).map (⟨·, .none⟩)
  | .task t, ⟨g, .bare r⟩ => if t.role = .code ∨ t.role = .fail then some ⟨g, .bare r⟩ else none
  | .task t, ⟨g, .off r f x⟩ => (Spot.unwind f t x).map (⟨g, .off r f ·⟩)
  | .base f false, ⟨.back t f', .none⟩ => if f = f' then some ⟨.on t f .landed, .none⟩ else none
  | .base f true, ⟨g, .bare r⟩ => some ⟨g, .off r f .landed⟩
  | .base .., _ => none

/-- What the items on top of a stack that stands at `m` make of it. -/
def upon (m : Mode) (s : List (Item Task)) : Option Mode :=
  s.foldr (fun i m => m.bind (step i)) (some m)

/-- What the thread with the control stack `s` is doing. -/
def of (s : List (Item Task)) : Option Mode := idle.upon s

variable {m m' : Mode} {s s' : List (Item Task)} {t : Task} {ts : List Task}

theorem step_none (t : Task) (g : Ground) : step (.task t) ⟨g, .none⟩ =
    match t.role with
    | .released r => if g.isCalm then some ⟨g, .bare r⟩ else none
    | _ => (g.step t).map (⟨·, .none⟩) := rfl

theorem step_bare (t : Task) (g : Ground) (r : Ref) : step (.task t) ⟨g, .bare r⟩ =
    if t.role = .code ∨ t.role = .fail then some ⟨g, .bare r⟩ else none := rfl

theorem step_off (t : Task) (g : Ground) (r : Ref) (f : FiberId) (x : Spot) :
    step (.task t) ⟨g, .off r f x⟩ = (Spot.unwind f t x).map (⟨g, .off r f ·⟩) := rfl

theorem step_back (f f' : FiberId) (t : Ref) : step (.base f false) ⟨.back t f', .none⟩ =
    if f = f' then some ⟨.on t f .landed, .none⟩ else none := rfl

@[simp] theorem upon_nil : m.upon [] = some m := rfl

@[simp] theorem upon_cons (i : Item Task) : m.upon (i :: s) = (m.upon s).bind (step i) := rfl

theorem upon_append : m.upon (s ++ s') = (m.upon s').bind fun m' => m'.upon s := by
  induction s with
  | nil => simp
  | cons i s ih =>
    simp only [List.cons_append, upon_cons, ih]
    cases m.upon s' <;> rfl

theorem of_append : of (s ++ s') = (of s').bind fun m => m.upon s := upon_append

theorem step_code (hm : m.isOpen = true) (h : t.role = .code ∨ t.role = .fail) :
    step (.task t) m = some m := by
  obtain ⟨g, u⟩ := m
  cases u with
  | none =>
    have hg : g.step t = some g := Ground.step_code hm h
    rcases h with h | h <;> simp [step_none, h, hg]
  | bare r => rcases h with h | h <;> simp [step_bare, h]
  | off r f x =>
    rcases h with h | h <;> cases x <;> simp_all [isOpen, step_off, Spot.unwind]

theorem of_step_code (h : step (.task t) m = some m') (hr : t.role = .code) :
    m' = m ∧ m.isOpen = true := by
  obtain ⟨g, u⟩ := m
  cases u with
  | none =>
    cases g with
    | on r f x =>
      cases x <;> simp_all [isOpen, Ground.isOpen, step_none, Ground.step, Spot.step]
    | _ => simp_all [isOpen, Ground.isOpen, Ground.isCalm, step_none, Ground.step]
  | bare r => simp_all [step_bare, isOpen]
  | off r f x => cases x <;> simp_all [isOpen, step_off, Spot.unwind]

theorem of_step_signal (h : step (.task t) m = some m') (hr : t.role = .code ∨ t.role = .fail) :
    m' = m ∧ m.isOpen = true ∨ t.role = .fail ∧ ∃ g r f, m = ⟨g, .off r f .resumed⟩ ∧
      m' = ⟨g, .off r f .code⟩ := by
  obtain ⟨g, u⟩ := m
  cases u with
  | none =>
    cases g with
    | on r f x =>
      rcases hr with hr | hr <;> cases x <;>
        simp_all [isOpen, Ground.isOpen, step_none, Ground.step, Spot.step]
    | _ =>
      rcases hr with hr | hr <;>
        simp_all [isOpen, Ground.isOpen, Ground.isCalm, step_none, Ground.step]
  | bare r => rcases hr with hr | hr <;> simp_all [step_bare, isOpen]
  | off r f x => rcases hr with hr | hr <;> cases x <;> simp_all [isOpen, step_off, Spot.unwind]

theorem of_step_resumed {g : Ground} {r : Ref} {f : FiberId}
    (h : step (.task t) m = some ⟨g, .off r f .resumed⟩) :
    t.role = .resumed ∧ m = ⟨g, .off r f .code⟩ := by
  obtain ⟨g', u⟩ := m
  cases u with
  | none =>
    simp only [step_none] at h
    split at h
    · split at h <;> cases h
    · obtain ⟨g'', -, he⟩ := Option.map_eq_some_iff.mp h
      cases he
  | bare q =>
    simp only [step_bare] at h
    split at h <;> cases h
  | off q i x =>
    obtain ⟨y, hy, he⟩ := Option.map_eq_some_iff.mp h
    cases he
    cases x <;> simp only [Spot.unwind] at hy
    · split at hy <;> first | cases hy | (split at hy <;> cases hy)
    · split at hy <;> try cases hy
      exact ⟨‹_›, rfl⟩
    · split at hy <;> cases hy
    · cases hy

theorem of_step_ground {g : Ground} (h : step (.task t) m = some m')
    (hr : t.role.ground? = some g) : m = .idle ∧ m' = ⟨g, .none⟩ := by
  obtain ⟨x, u⟩ := m
  cases hrole : t.role <;> simp only [Role.ground?, hrole, reduceCtorEq, Option.some.injEq] at hr
  all_goals
    subst hr
    cases u with
    | none =>
      cases x with
      | on r f y => cases y <;> simp [step_none, Ground.step, Spot.step, hrole] at h
      | idle => simpa [step_none, Ground.step, hrole, idle] using h.symm
      | _ => simp [step_none, Ground.step, hrole] at h
    | bare q => simp [step_bare, hrole] at h
    | off q i x => cases x <;> simp [step_off, Spot.unwind, hrole] at h

theorem of_step_release {m m' : Mode} {t : Task} (h : step (.task t) m = some m')
    (hr : t.role = .release) : m' = m ∧ m.unwinding = .none ∧ m.ground.isCalm = true := by
  obtain ⟨g, u⟩ := m
  cases u with
  | none =>
    cases g with
    | on r f x => cases x <;> simp [step_none, Ground.step, Spot.step, hr] at h
    | _ => simp_all [step_none, Ground.step, Ground.isCalm]
  | bare r => simp [step_bare, hr] at h
  | off r f x => cases x <;> simp [step_off, Spot.unwind, hr] at h

theorem of_step_entry {f : FiberId} (h : step (.task t) m = some m') (hr : t.role = .entry f) :
    (∃ r, m = ⟨.on r f .landed, .none⟩ ∧ m' = ⟨.on r f .code, .none⟩) ∨
      ∃ g r, m = ⟨g, .off r f .landed⟩ ∧ m' = ⟨g, .off r f .code⟩ := by
  obtain ⟨g, u⟩ := m
  cases u with
  | none =>
    cases g with
    | on r i x =>
      cases x <;> simp [step_none, Ground.step, Spot.step, hr] at h
      obtain ⟨rfl, rfl⟩ := h
      exact .inl ⟨r, rfl, rfl⟩
    | _ => simp [step_none, Ground.step, hr] at h
  | bare q => simp [step_bare, hr] at h
  | off q i x =>
    cases x <;> simp [step_off, Spot.unwind, hr] at h
    obtain ⟨rfl, rfl⟩ := h
    exact .inr ⟨g, q, rfl, rfl⟩

theorem of_step_resuming (h : step (.task t) m = some m') (hr : t.role = .resumed) :
    (∃ r f, m = ⟨.on r f .code, .none⟩ ∧ m' = ⟨.on r f .resumed, .none⟩) ∨
      ∃ g r f, m = ⟨g, .off r f .code⟩ ∧ m' = ⟨g, .off r f .resumed⟩ := by
  obtain ⟨g, u⟩ := m
  cases u with
  | none =>
    cases g with
    | on r i x =>
      cases x <;> simp [step_none, Ground.step, Spot.step, hr] at h
      exact .inl ⟨r, i, rfl, h.symm⟩
    | _ => simp [step_none, Ground.step, hr] at h
  | bare q => simp [step_bare, hr] at h
  | off q i x =>
    cases x <;> simp [step_off, Spot.unwind, hr] at h
    exact .inr ⟨g, q, i, rfl, h.symm⟩

theorem of_step_suspend {f : FiberId} (h : step (.task t) m = some m')
    (hr : t.role = .suspend f) :
    ∃ r, m = ⟨.on r f .code, .none⟩ ∧ m' = ⟨.on r f .suspended, .none⟩ := by
  obtain ⟨g, u⟩ := m
  cases u with
  | none =>
    cases g with
    | on r i x =>
      cases x <;> simp [step_none, Ground.step, Spot.step, hr] at h
      obtain ⟨rfl, rfl⟩ := h
      exact ⟨r, rfl, rfl⟩
    | _ => simp [step_none, Ground.step, hr] at h
  | bare q => simp [step_bare, hr] at h
  | off q i x => cases x <;> simp [step_off, Spot.unwind, hr] at h

theorem of_step_released {r : Ref} (h : step (.task t) m = some m') (hr : t.role = .released r) :
    ∃ g, m = ⟨g, .none⟩ ∧ g.isCalm = true ∧ m' = ⟨g, .bare r⟩ := by
  obtain ⟨g, u⟩ := m
  cases u with
  | none =>
    simp only [step_none, hr] at h
    split at h <;> cases h
    exact ⟨g, rfl, ‹_›, rfl⟩
  | bare q => simp [step_bare, hr] at h
  | off q i x => cases x <;> simp [step_off, Spot.unwind, hr] at h

theorem of_step_base {f : FiberId} {forced : Bool} (h : step (.base f forced) m = some m') :
    (forced = false ∧ ∃ r, m = ⟨.back r f, .none⟩ ∧ m' = ⟨.on r f .landed, .none⟩) ∨
      forced = true ∧ ∃ g r, m = ⟨g, .bare r⟩ ∧ m' = ⟨g, .off r f .landed⟩ := by
  obtain ⟨g, u⟩ := m
  cases forced with
  | false =>
    cases u with
    | none =>
      cases g with
      | back t f' =>
        rw [step_back] at h
        split at h <;> cases h
        subst_vars
        exact .inl ⟨rfl, _, rfl, rfl⟩
      | _ => cases h
    | _ => cases g <;> cases h
  | true =>
    cases u <;> cases h
    exact .inr ⟨rfl, g, _, rfl, rfl⟩

theorem upon_code (hm : m.isOpen = true) (h : ∀ t ∈ ts, t.role = .code ∨ t.role = .fail) :
    m.upon (ts.map .task) = some m := by
  induction ts with
  | nil => rfl
  | cons t ts ih =>
    rw [List.map_cons, upon_cons, ih fun u hu => h u (by simp [hu])]
    exact step_code hm (h t (by simp))

theorem of_push (hm : m.isOpen = true) (h : ∀ t ∈ ts, t.role = .code ∨ t.role = .fail)
    (hs : of s = some m) : of (ts.map .task ++ s) = some m := by
  rw [of_append, hs]
  exact upon_code hm h

theorem of_cons {i : Item Task} (h : of (i :: s) = some m) :
    ∃ m₀, of s = some m₀ ∧ step i m₀ = some m := by
  simpa [of, Option.bind_eq_some_iff] using h

theorem of_cons_of {i : Item Task} {m₀ : Mode} (hs : of s = some m₀) (hi : step i m₀ = some m) :
    of (i :: s) = some m := by
  rw [of, upon_cons, ← of, hs]
  exact hi

theorem step_congr {t' : Task} (h : t'.role = t.role) : step (.task t') = step (.task t) := by
  have hs (f : FiberId) : Spot.step f t' = Spot.step f t := by
    funext x
    cases x <;> simp only [Spot.step, h]
  have hu (f : FiberId) : Spot.unwind f t' = Spot.unwind f t := by
    funext x
    cases x <;> simp only [Spot.unwind, h]
  have hg : Ground.step t' = Ground.step t := by
    funext g
    cases g <;> simp only [Ground.step, hs, h]
  funext m
  obtain ⟨g, u⟩ := m
  cases u <;> simp only [step_none, step_bare, step_off, hu, hg, h]

theorem of_modifyFrameOf (g : Frame → Frame) (s : List (Item Task)) :
    of (World.modifyFrameOf g s) = of s := by
  induction s with
  | nil => rfl
  | cons i s ih =>
    unfold World.modifyFrameOf
    split
    · rename_i h
      cases h
    · rename_i f rest h
      obtain ⟨rfl, rfl⟩ := List.cons.inj h
      simp only [of, upon_cons]
      rw [step_congr (show (Task.frame (g f)).role = (Task.frame f).role from rfl)]
    · rename_i j rest _ h
      obtain ⟨rfl, rfl⟩ := List.cons.inj h
      simp only [of, upon_cons] at ih ⊢
      rw [ih]

/-- A release begins on the original stack, where no fiber runs. -/
theorem isCalm_of_unwinding (h : of s = some m) (hu : m.unwinding ≠ .none) :
    m.ground.isCalm = true := by
  induction s generalizing m with
  | nil =>
    obtain rfl := Option.some.inj h
    exact absurd rfl hu
  | cons i s ih =>
    obtain ⟨⟨g, u⟩, h₀, hi⟩ := of_cons h
    cases i with
    | task t =>
      cases u with
      | none =>
        simp only [step_none] at hi
        split at hi
        · split at hi
          · obtain rfl := Option.some.inj hi
            assumption
          · cases hi
        · obtain ⟨g', -, rfl⟩ := Option.map_eq_some_iff.mp hi
          exact absurd rfl hu
      | bare r =>
        have hg := ih h₀ (by simp)
        simp only [step_bare] at hi
        split at hi
        · obtain rfl := Option.some.inj hi
          exact hg
        · cases hi
      | off r f x =>
        have hg := ih h₀ (by simp)
        obtain ⟨y, -, rfl⟩ := Option.map_eq_some_iff.mp hi
        exact hg
    | base f forced =>
      cases u with
      | none =>
        cases forced with
        | true => cases hi
        | false =>
          cases g with
          | back t f' =>
            rw [step_back] at hi
            split at hi
            · obtain rfl := Option.some.inj hi
              exact absurd rfl hu
            · cases hi
          | _ => cases hi
      | bare r =>
        cases forced with
        | false => cases g <;> cases hi
        | true =>
          obtain rfl := Option.some.inj hi
          exact ih (m := ⟨g, .bare r⟩) h₀ (by simp)
      | off r f' x => cases forced <;> cases g <;> cases hi

/-- The items above a base make of the mode what their tasks make of the spot. -/
theorem upon_on (r : Ref) (f : FiberId) {x : Spot} (h : Spot.walk (Spot.step f) s = some x) :
    (Mode.mk (.on r f .landed) .none).upon s = some ⟨.on r f x, .none⟩ := by
  induction s generalizing x with
  | nil =>
    obtain rfl := Option.some.inj h
    rfl
  | cons i s ih =>
    cases i with
    | base => cases h
    | task t =>
      obtain ⟨y, hy, hs⟩ := Option.bind_eq_some_iff.mp h
      have hr : ∀ r', t.role ≠ .released r' := by
        rintro r' hr
        cases y <;> simp [Spot.step, hr] at hs
      rw [upon_cons, ih hy]
      simp [step_none, Ground.step, hs]

theorem upon_off (g : Ground) (r : Ref) (f : FiberId) {x : Spot}
    (h : Spot.walk (Spot.unwind f) s = some x) :
    (Mode.mk g (.off r f .landed)).upon s = some ⟨g, .off r f x⟩ := by
  induction s generalizing x with
  | nil =>
    obtain rfl := Option.some.inj h
    rfl
  | cons i s ih =>
    cases i with
    | base => cases h
    | task t =>
      obtain ⟨y, hy, hs⟩ := Option.bind_eq_some_iff.mp h
      rw [upon_cons, ih hy]
      simp [step_off, hs]

theorem of_on {r : Ref} {f : FiberId} {x : Spot} (h : of s = some ⟨.on r f x, .none⟩) :
    ∃ above below, s = above ++ .base f false :: below ∧
      Control.split s = some (above, f, false, below) ∧
      of below = some ⟨.back r f, .none⟩ ∧ Spot.walk (Spot.step f) above = some x := by
  induction s generalizing x with
  | nil => cases h
  | cons i s ih =>
    obtain ⟨⟨g, u⟩, h₀, hi⟩ := of_cons h
    cases i with
    | task t =>
      cases u with
      | none =>
        have hg : g.step t = some (.on r f x) := by
          simp only [step_none] at hi
          split at hi
          · split at hi <;> cases hi
          · obtain ⟨g', hg', he⟩ := Option.map_eq_some_iff.mp hi
            rw [hg', ← (Mode.mk.inj he).1]
        cases g with
        | on r' f' y =>
          obtain ⟨z, hz, he⟩ := Option.map_eq_some_iff.mp hg
          cases he
          obtain ⟨above, below, rfl, hsp, hb, hw⟩ := ih h₀
          refine ⟨.task t :: above, below, rfl, ?_, hb, ?_⟩
          · simp [Control.split, hsp]
          · simp [Spot.walk, hw, hz]
        | _ =>
          simp only [Ground.step] at hg
          split at hg <;> first | (split at hg <;> cases hg) | cases hg
      | bare r' =>
        simp only [step_bare] at hi
        split at hi <;> cases hi
      | off r' f' y =>
        obtain ⟨z, -, he⟩ := Option.map_eq_some_iff.mp hi
        cases he
    | base f' forced =>
      cases forced with
      | true => cases u <;> cases hi
      | false =>
        cases u with
        | none =>
          cases g with
          | back t f'' =>
            rw [step_back] at hi
            split at hi
            · cases hi
              subst_vars
              exact ⟨[], s, rfl, rfl, h₀, rfl⟩
            · cases hi
          | _ => cases hi
        | _ => cases g <;> cases hi

theorem of_step_on {x : Spot} (h : step (.task t) ⟨.on r f x, .none⟩ = some m) :
    ∃ y, m = ⟨.on r f y, .none⟩ := by
  simp only [step_none] at h
  split at h
  · simp [Ground.isCalm] at h
  · obtain ⟨g, hg, rfl⟩ := Option.map_eq_some_iff.mp h
    obtain ⟨y, -, rfl⟩ := Option.map_eq_some_iff.mp hg
    exact ⟨y, rfl⟩

theorem of_split {s above below : List (Item Task)} (h : of s = some m)
    (hs : Control.split s = some (above, f, false, below)) : ∃ r x, m = ⟨.on r f x, .none⟩ := by
  induction s generalizing m above with
  | nil => cases hs
  | cons i s ih =>
    obtain ⟨m₀, h₀, hi⟩ := of_cons h
    cases i with
    | base q forced =>
      obtain ⟨-, rfl, rfl, -⟩ : [] = above ∧ q = f ∧ forced = false ∧ s = below := by
        simpa [Control.split] using hs
      obtain ⟨-, r, -, rfl⟩ | ⟨he, -⟩ := of_step_base hi
      · exact ⟨r, .landed, rfl⟩
      · cases he
    | task t =>
      obtain ⟨⟨above', q, forced, rest⟩, hs', he⟩ := Option.map_eq_some_iff.mp hs
      obtain ⟨-, rfl, rfl, rfl⟩ : .task t :: above' = above ∧ q = f ∧ forced = false ∧
          rest = below := by simpa using he
      obtain ⟨r, x, rfl⟩ := ih h₀ hs'
      exact ⟨r, of_step_on hi⟩

/-- Code runs on a stack that is not being unwound exactly where the thread is said to. -/
theorem isRunning_iff (h : of s = some m) (ho : m.isOpen = true) :
    m.ground.isRunning = true ↔
      ∃ above f below, Control.split s = some (above, f, false, below) := by
  constructor
  · intro hr
    obtain ⟨g, u⟩ := m
    have hu : u = .none := by
      by_contra hu
      have hc := isCalm_of_unwinding h hu
      cases g with
      | back | on => cases hc
      | _ => cases hr
    subst hu
    cases g with
    | on r f x =>
      obtain ⟨above, below, -, hs, -⟩ := of_on h
      exact ⟨above, f, below, hs⟩
    | back t f => cases ho
    | _ => cases hr
  · rintro ⟨above, f, below, hs⟩
    obtain ⟨r, x, rfl⟩ := of_split h hs
    rfl

end Mode

end Switchyard
