import Switchyard.Proofs.Fiber.Step

/-!
# The life of a fiber

Whatever a session does from outside its fibers, each entry starts at most once, each suspend
returns at most once, each value is dropped exactly once unless its stack is given up, and a fiber
that is finished stays so.
-/

namespace Switchyard.Fiber.Session

variable {c c' : Control Task} {es ev : List Event} {e : Event} {s s' s'' : Session}
  {l low : List (Item Task)} {ts : List Task} {t : Task} {f g : FiberId} {m : String} {st : Step}
  {u : Fiber Task → Fiber Task}

theorem of_mem_resumed (he : e ∈ resumed c f) : ¬Over c e.fiber := by
  unfold resumed at he
  split at he
  · rename_i hp
    obtain rfl := List.mem_singleton.mp he
    exact not_over_of_fresh hp
  · rename_i hp
    obtain rfl := List.mem_singleton.mp he
    exact not_over_of_parked hp
  · cases he

theorem of_mem_givenUp (he : e ∈ givenUp c f) : ¬Over c e.fiber := by
  unfold givenUp at he
  split at he
  · rename_i hp
    obtain rfl := List.mem_singleton.mp he
    exact not_over_of_fresh hp
  · rename_i hp
    obtain rfl := List.mem_singleton.mp he
    exact not_over_of_parked hp
  · cases he

theorem Step.of_mem_events (he : e ∈ st.events s) : ¬Over s.control e.fiber := by
  cases st with
  | create name body mark =>
    cases mark with
    | none => cases he
    | some m =>
      obtain rfl := List.mem_singleton.mp he
      exact fun ho => absurd ho.1 (Nat.lt_irrefl _)
  | resume n =>
    simp only [Step.events] at he
    cases hf : s.table.find? n with
    | none => simp [hf] at he
    | some f => exact of_mem_resumed (by simpa [hf] using he)
  | abandon n =>
    simp only [Step.events] at he
    cases hf : s.table.find? n with
    | none => simp [hf] at he
    | some f => exact of_mem_givenUp (by simpa [hf] using he)
  | _ => cases he

theorem Step.eventsOn_cases (st : Step) (s : Session) (f : FiberId) :
    st.eventsOn s f = [] ∨ st.eventsOn s f = [.suspended f] ∨
    (∃ m, st.eventsOn s f = [.made f m]) ∨ st.eventsOn s f = st.events s := by
  cases st with
  | suspend =>
    by_cases ha : (s.control.fiberD f).armed = true
    · exact .inr (.inl (if_pos ha))
    · exact .inl (if_neg ha)
  | mark m => exact .inr (.inr (.inl ⟨m, rfl⟩))
  | _ => exact .inr (.inr (.inr rfl))

theorem Sound.of_mem_events (h : Sound es s) (he : e ∈ s.events) : ¬Done s.control e.fiber := by
  rintro hd
  have hb := h.order.stack
  unfold events at he
  split at he
  · rename_i f m low hst
    obtain rfl := List.mem_singleton.mp he
    have := hd.bare m
    simp [hst, Task.holds, Event.fiber] at this
  · exact Step.of_mem_events he hd.spent
  · rename_i st rest low hst
    rw [hst] at hb
    obtain ⟨f, marks, low', rfl⟩ : ∃ f marks low', low = .task (.frame f marks) :: low' := by
      rcases hb.1 with hs | ⟨g, heq, -⟩ | ⟨g, m, heq, -⟩
      · exact hs
      · cases heq
      · cases heq
    have hr : f ∈ running s.control.stack := by
      rw [hst]
      exact mem_running_of_ground (hb.2.1.resolve_right id).1
    rcases st.eventsOn_cases s f with h₀ | h₀ | ⟨m, h₀⟩ | h₀
    · exact absurd (h₀ ▸ he) List.not_mem_nil
    · obtain rfl := List.mem_singleton.mp (h₀ ▸ he)
      exact hd.idle hr
    · obtain rfl := List.mem_singleton.mp (h₀ ▸ he)
      exact hd.idle hr
    · exact Step.of_mem_events (h₀ ▸ he) hd.spent
  · cases he

theorem resumed_length : (resumed c f).length ≤ 1 := by
  unfold resumed
  split <;> simp

theorem givenUp_length : (givenUp c f).length ≤ 1 := by
  unfold givenUp
  split <;> simp

theorem Step.events_length : (st.events s).length ≤ 1 := by
  cases st with
  | create name body mark => cases mark <;> simp [Step.events]
  | resume n =>
    simp only [Step.events]
    cases s.table.find? n with
    | none => simp
    | some f => exact resumed_length
  | abandon n =>
    simp only [Step.events]
    cases s.table.find? n with
    | none => simp
    | some f => exact givenUp_length
  | _ => simp [Step.events]

theorem events_length : s.events.length ≤ 1 := by
  unfold events
  split
  · simp
  · exact Step.events_length
  · rename_i st rest low hst
    rcases st.eventsOn_cases s ((frame? low).getD (0, [])).1 with
      h | h | ⟨m, h⟩ | h
    · simp [h]
    · simp [h]
    · simp [h]
    · rw [h]
      exact Step.events_length
  · simp

def droppedMarks (log : List Datum) : List String :=
  log.filterMap fun
    | .list [.text "drop", .text m] => some m
    | _ => none

def Event.droppedMark? : Event → Option String
  | .dropped _ m => some m
  | _ => none

structure Grows (s s' : Session) : Prop where
  finished : ∀ f, (s.control.fiberD f).finished = true → (s'.control.fiberD f).finished = true
  log : droppedMarks s'.log = droppedMarks s.log

namespace Grows

theorem refl (s : Session) : Grows s s := ⟨fun _ h => h, rfl⟩

theorem trans (h : Grows s s') (h' : Grows s' s'') : Grows s s'' :=
  ⟨fun f hf => h'.finished f (h.finished f hf), h'.log.trans h.log⟩

end Grows

/-- Fibers that are finished stay so. -/
def Lasts (c c' : Control Task) : Prop :=
  ∀ f, (c.fiberD f).finished = true → (c'.fiberD f).finished = true

theorem Lasts.trans {c'' : Control Task} (h : Lasts c c') (h' : Lasts c' c'') : Lasts c c'' :=
  fun f hf => h' f (h f hf)

theorem Lasts.of_fibers (h : c'.fibers = c.fibers) : Lasts c c' := fun f hf => by
  rwa [Control.fiberD, h]

theorem Lasts.modify (hu : ∀ x, x.finished = true → (u x).finished = true) :
    Lasts c (c.modify f u) := fun g hg => by
  rw [Control.fiberD_modify]
  split
  · exact hu _ hg
  · exact hg

theorem Lasts.resume (h : c.resume f = some c') : Lasts c c' := by
  unfold Control.resume at h
  split at h
  · cases h
  · cases h
    exact Lasts.modify fun _ hx => hx
  · cases h
    exact Lasts.modify fun _ hx => hx
  · cases h
    exact .of_fibers rfl
  · cases h
    exact .of_fibers rfl

theorem Lasts.suspend (h : c.suspend = some c') : Lasts c c' := by
  unfold Control.suspend at h
  obtain ⟨⟨above, f, forced, below⟩, -, rfl⟩ := Option.map_eq_some_iff.mp h
  dsimp only
  split
  · exact .of_fibers rfl
  · exact Lasts.modify fun _ hx => hx

theorem Lasts.land (forced : Bool) : Lasts c (c.land f forced) :=
  Lasts.modify fun _ _ => by cases forced <;> rfl

theorem Lasts.destroy (panicking : Bool) : Lasts c (c.destroy f panicking).1 := by
  have ht : Lasts c (c.modify f fun s => { s with phase := .taken }) := Lasts.modify fun _ hx => hx
  unfold Control.destroy
  dsimp only
  split
  · exact ht
  · split <;> exact ht
  · exact .of_fibers rfl
  · exact ht
  · exact ht

theorem Lasts.abandon : Lasts c (c.abandon f) := by
  have hs : Lasts c (c.modify f Fiber.settle) := Lasts.modify fun _ _ => rfl
  have ht : Lasts c ((c.modify f Fiber.settle).modify f fun s => { s with phase := .taken }) :=
    hs.trans (Lasts.modify fun _ hx => hx)
  unfold Control.abandon
  dsimp only
  split
  · exact ht
  · exact ht
  · exact hs
  · exact ht
  · exact ht

theorem Lasts.unshare (panicking : Bool) : Lasts c (c.unshare f panicking).1 := by
  have hm : Lasts c (c.modify f fun s => { s with handles := s.handles - 1 }) :=
    Lasts.modify fun _ hx => hx
  unfold Control.unshare
  dsimp only
  have hc : Lasts c ((c.modify f fun s => { s with handles := s.handles - 1 }).modify f
      fun s => { s with cancelling := true }) := hm.trans (Lasts.modify fun _ hx => hx)
  split
  · exact hc.trans (Lasts.destroy panicking)
  · exact hm

theorem Lasts.create (entry discard : List Task) : Lasts c (c.create entry discard).2 :=
  fun g hg => by
    rw [fiberD_create]
    split
    · rename_i h
      subst h
      simp [Control.fiberD] at hg
    · exact hg

theorem Grows.write {d : Datum} (hd : droppedMarks [d] = []) : Grows s (s.write d) where
  finished _ h := h
  log := by
    show droppedMarks ([d] ++ s.log) = _
    rw [droppedMarks, List.filterMap_append]
    exact congrArg (· ++ droppedMarks s.log) hd

theorem Grows.startUnwind {r : Control Task × Bool} (h : Lasts s.control r.1) :
    Grows s (startUnwind r s) := by
  unfold Session.startUnwind
  dsimp only
  split
  · exact ⟨h, rfl⟩
  · exact ⟨h, rfl⟩

theorem Grows.runNamed (inside : Bool) (name : String) : Grows s (runNamed inside st name s) := by
  unfold Session.runNamed
  dsimp only
  split
  · exact ⟨fun _ h => h, rfl⟩
  rename_i f _
  have hshare : Lasts s.control (s.control.share f) := Lasts.modify fun _ hx => hx
  split
  · split
    · rename_i h
      have hr := Lasts.resume h
      exact ⟨fun g hg => hr g (hshare g hg), rfl⟩
    · exact ⟨hshare, rfl⟩
  · exact ⟨fun _ h => h, rfl⟩
  · exact ⟨fun _ h => h, rfl⟩
  · refine Grows.startUnwind (Lasts.trans ?_ (Lasts.destroy _))
    exact hshare.trans (Lasts.modify fun _ hx => hx)
  · exact ⟨Lasts.abandon, rfl⟩
  · exact ⟨hshare, rfl⟩
  · exact ⟨fun _ h => h, rfl⟩
  · exact ⟨fun _ h => h, rfl⟩

theorem Grows.runShared (inside : Bool) : Grows s (runShared inside st s) := by
  unfold Session.runShared
  split
  · exact ⟨Lasts.create _ _, rfl⟩
  · split
    · exact ⟨fun _ h => h, rfl⟩
    · exact ⟨fun _ h => h, rfl⟩
  all_goals first | exact Grows.runNamed _ _ | exact ⟨fun _ h => h, rfl⟩

theorem Grows.runInside : Grows s (runInside st s) := by
  unfold Session.runInside
  dsimp only
  split
  · split
    · split
      · rename_i h
        have hs := Lasts.suspend h
        exact ⟨fun g hg => hs g hg, rfl⟩
      · exact ⟨fun _ h => h, rfl⟩
    · exact ⟨fun _ h => h, rfl⟩
  · exact ⟨fun _ h => h, rfl⟩
  · exact ⟨fun _ h => h, rfl⟩
  · split <;> exact ⟨fun _ h => h, rfl⟩
  · exact ⟨fun _ h => h, rfl⟩
  · exact ⟨fun _ h => h, rfl⟩
  · exact ⟨fun _ h => h, rfl⟩
  · exact ⟨fun _ h => h, rfl⟩
  · exact Grows.runShared true

theorem Grows.unwindTask (p : Panic) : Grows s (unwindTask p t s) := by
  cases t with
  | guardEnd pass =>
    simp only [Session.unwindTask]
    split
    · exact (Grows.write rfl).trans ⟨fun _ h => h, rfl⟩
    · exact ⟨fun _ h => h, rfl⟩
  | outerEnd name =>
    exact (Grows.write (d := entry false name _) rfl).trans ⟨fun _ h => h, rfl⟩
  | _ => exact ⟨fun _ h => h, rfl⟩

theorem Grows.runTask (h : ∀ f m, t ≠ .dropMark f m) : Grows s (runTask t s) := by
  cases t with
  | dropMark f m => exact absurd rfl (h f m)
  | steps l =>
    cases l with
    | nil => exact .refl s
    | cons st rest =>
      have hp : Grows s (s.push [.steps rest]) := ⟨fun _ h => h, rfl⟩
      exact hp.trans Grows.runInside
  | outer l =>
    cases l with
    | nil => exact .refl s
    | cons st rest =>
      have hp : Grows s (s.push [.outerEnd st.name, .outer rest]) := ⟨fun _ h => h, rfl⟩
      exact hp.trans (Grows.runShared false)
  | note inside name d => exact Grows.write (by simp [droppedMarks, entry])
  | status inside name f => exact Grows.write (by simp [droppedMarks, entry])
  | guardEnd pass => exact Grows.write (by simp [droppedMarks, entry])
  | dropHandle f => exact Grows.startUnwind (Lasts.unshare _)
  | settle f => exact ⟨Lasts.modify fun _ _ => rfl, rfl⟩
  | dropAll =>
    simp only [Session.runTask]
    split
    · exact .refl s
    · rename_i name f table hpop
      have ht : Grows s { s with table } := ⟨fun _ h => h, rfl⟩
      exact ht.trans ((Grows.write rfl).trans ⟨fun _ h => h, rfl⟩)
  | leave =>
    simp only [Session.runTask]
    split <;> exact ⟨fun _ h => h, rfl⟩
  | fail p =>
    simp only [Session.runTask]
    split
    · exact .refl s
    · rename_i t low hst
      have hp : Grows s (s.onStack low) := ⟨fun _ h => h, rfl⟩
      exact hp.trans (Grows.unwindTask p)
    · rename_i f forced low hst
      have hp : Lasts s.control (({ s.control with stack := low } : Control Task).land f forced) :=
        Lasts.trans (.of_fibers rfl) (Lasts.land _)
      split <;> exact ⟨hp, rfl⟩
  | frame | outerEnd => exact ⟨fun _ h => h, rfl⟩

theorem Step.events_marks : (st.events s).filterMap Event.droppedMark? = [] := by
  rw [List.filterMap_eq_nil_iff]
  rintro e he
  cases st with
  | create name body mark =>
    cases mark with
    | none => cases he
    | some m =>
      obtain rfl := List.mem_singleton.mp he
      rfl
  | resume n =>
    cases hf : s.table.find? n with
    | none => simp [Step.events, hf] at he
    | some f =>
      simp only [Step.events, hf, Option.elim, resumed] at he
      split at he <;> simp_all [Event.droppedMark?]
  | abandon n =>
    cases hf : s.table.find? n with
    | none => simp [Step.events, hf] at he
    | some f =>
      simp only [Step.events, hf, Option.elim, givenUp] at he
      split at he <;> simp_all [Event.droppedMark?]
  | _ => cases he

theorem step_grows (h : s.step = some s') : Lasts s.control s'.control ∧
    droppedMarks s'.log = s.events.filterMap Event.droppedMark? ++ droppedMarks s.log := by
  unfold step at h
  split at h
  · cases h
  · rename_i t low hst
    cases h
    have hp : Grows s (s.onStack low) := ⟨fun _ h => h, rfl⟩
    by_cases ht : ∃ f m, t = .dropMark f m
    · obtain ⟨f, m, rfl⟩ := ht
      exact ⟨fun _ h => h, by simp only [events, hst]; rfl⟩
    · have hg := hp.trans (Grows.runTask (s := s.onStack low) fun f m heq => ht ⟨f, m, heq⟩)
      have hev : s.events.filterMap Event.droppedMark? = [] := by
        unfold events
        split
        · rename_i f m _ heq
          rw [hst] at heq
          cases heq
          exact absurd ⟨f, m, rfl⟩ ht
        · exact Step.events_marks
        · rename_i st _ low _
          rcases st.eventsOn_cases s ((frame? low).getD (0, [])).1 with
            h | h | ⟨m, h⟩ | h
          · rw [h]; rfl
          · rw [h]; rfl
          · rw [h]; rfl
          · rw [h]
            exact Step.events_marks
        · rfl
      exact ⟨hg.finished, by rw [hev]; exact hg.log⟩
  · rename_i f forced low hst
    cases h
    have hev : s.events = [] := by simp [events, hst]
    rw [hev]
    exact ⟨Lasts.trans (.of_fibers rfl) (Lasts.land _), rfl⟩

theorem Sound.started (bodies : List (String × List Step)) (steps : List Step) :
    Sound [] (start bodies steps) := by
  have hc : ∀ f, (start bodies steps).control.fiberD f = { phase := .taken } := fun f => rfl
  refine ⟨⟨fun f => ?_, ?_, ?_⟩, .inl rfl⟩
  · refine ⟨.unborn (Nat.zero_le f) ?_ ?_, ?_, ?_, ?_, ?_, ?_⟩
    · simp
    · exact List.not_mem_nil
    · rintro m
      rfl
    · exact fun m hm => absurd rfl hm
    · simp
    · simp [hc]
    · simp [hc]
  · exact ⟨.inl trivial, .inl rfl, trivial⟩
  · exact fun e he => absurd he List.not_mem_nil

variable {bodies : List (String × List Step)} {steps : List Step} {es' : List Event}

theorem Sound.run (h : Sound es s) (hr : Run s es' s') : Sound (es' ++ es) s' := by
  induction hr with
  | refl => exact h
  | step _ hh hs ih =>
    rw [List.append_assoc]
    exact ih.step hh hs

theorem Run.sound (h : Run (start bodies steps) es s) : Sound es s :=
  List.append_nil es ▸ (Sound.started bodies steps).run h

/-- A finished fiber stays finished, and nothing happens to it any more. -/
theorem Sound.lasts (h : Sound es s) (hf : (s.control.fiberD f).finished = true)
    (hr : Run s es' s') : (s'.control.fiberD f).finished = true ∧ ∀ e ∈ es', e.fiber ≠ f := by
  induction hr with
  | refl => exact ⟨hf, fun e he => absurd he List.not_mem_nil⟩
  | step hr hh hs ih =>
    have hsound := h.run hr
    refine ⟨(step_grows hs).1 f ih.1, fun e he => ?_⟩
    rcases List.mem_append.mp he with he | he
    · rintro rfl
      exact hsound.of_mem_events he ((hsound.order.sane _).finished ih.1).1
    · exact ih.2 e he

theorem Run.silent (h : Run (start bodies steps) es s) (f : FiberId) :
    es.Pairwise fun later e => e = .abandoned f → later.fiber ≠ f := by
  induction h with
  | refl => exact .nil
  | @step es s₁ _ hr hh hs ih =>
    have hsound := hr.sound
    refine List.pairwise_append.mpr ⟨?_, ih, fun e he e' he' heq => ?_⟩
    · have hl := events_length (s := s₁)
      generalize s₁.events = ev at hl
      cases ev with
      | nil => exact .nil
      | cons e ev =>
        cases ev with
        | nil => exact List.pairwise_singleton _ _
        | cons e' ev => simp at hl
    · rintro rfl
      exact hsound.of_mem_events he ((hsound.order.sane _).abandoned (heq ▸ he'))

theorem Run.log (h : Run (start bodies steps) es s) :
    droppedMarks s.log = es.filterMap Event.droppedMark? := by
  induction h with
  | refl => rfl
  | step _ _ hs ih => rw [(step_grows hs).2, ih, List.filterMap_append]

/-- What becomes of a fiber and of its values in a session that has come to `s` by the events
`es`. -/
structure Lifecycle (es : List Event) (s : Session) (f : FiberId) : Prop where
  /-- The entry starts at most once, and each suspend returns at most once, before the next. -/
  course : ∃ n, course f es <+: laps f n
  /-- A value is dropped once, or still owned, or on a stack that was given up. -/
  values : ∀ m, es.count (.made f m) =
    es.count (.dropped f m) + held s.control f m + forgone s.control f m
  /-- A fiber that is over and was not given up has dropped each of its values once; the last
  drops of an entry that never ran are the next thing that is done. -/
  ended : Over s.control f → f ∉ running s.control.stack →
    (∀ m low, s.control.stack ≠ .task (.dropMark f m) :: low) → .abandoned f ∉ es →
    ∀ m, es.count (.made f m) = es.count (.dropped f m)
  /-- Nothing that a fiber owns when it is given up is dropped, and nothing else happens to it. -/
  abandoned : es.Pairwise fun later e => e = .abandoned f → later.fiber ≠ f
  /-- A finished fiber has no stack: resuming it runs nothing and finds it finished, and its
  suspends return at once. -/
  finished : (s.control.fiberD f).finished = true →
    Over s.control f ∧ f ∉ running s.control.stack ∧ s.control.resume f = some s.control ∧
      statusText (s.control.fiberD f) = "finished" ∧ (s.control.fiberD f).armed = false ∧
      (.abandoned f ∉ es → ∀ m, es.count (.made f m) = es.count (.dropped f m))
  /-- It stays so. -/
  lasts : (s.control.fiberD f).finished = true → ∀ es' s', Run s es' s' →
    (s'.control.fiberD f).finished = true ∧ ∀ e ∈ es', e.fiber ≠ f
  /-- The drops are those that the log tells of. -/
  log : droppedMarks s.log = es.filterMap Event.droppedMark?

theorem Sane.course_le (h : Sane es c f) : ∃ n, course f es <+: laps f n := by
  cases h.stage with
  | unborn _ he =>
    have hc : course f es = [] := course_eq_nil fun e hm heq => absurd heq (he e hm)
    exact ⟨0, hc ▸ List.nil_prefix⟩
  | fresh _ _ hc => exact ⟨0, hc ▸ List.nil_prefix⟩
  | @active n _ _ _ hc => exact ⟨n, hc ▸ List.prefix_rfl⟩
  | @parked _ n _ _ _ _ hc =>
    refine ⟨n + 1, ?_⟩
    rw [hc, laps_succ]
    exact (List.prefix_append_right_inj _).mpr ⟨[.returned f], rfl⟩
  | unwinding _ _ _ hc => exact ⟨_, hc⟩
  | spent _ _ hc => exact ⟨_, hc⟩

/-- What is done owns nothing, and has lost nothing unless it was given up. -/
theorem Sane.balanced (h : Sane es c f) (hd : Done c f) (ha : .abandoned f ∉ es) (m : String) :
    es.count (.made f m) = es.count (.dropped f m) := by
  have hl : forgone c f m = 0 := by
    by_contra hn
    exact ha (h.lost m hn)
  rw [h.values m, held, hd.bare, kept_of_isOver hd.spent.2, hl]
  rfl

theorem Sound.done (h : Sound es s) (ho : Over s.control f) (hr : f ∉ running s.control.stack)
    (ht : ∀ m low, s.control.stack ≠ .task (.dropMark f m) :: low) : Done s.control f := by
  refine ⟨ho, hr, fun m => Below.holds_eq_zero h.order.stack hr ?_⟩
  rintro t low heq (⟨g, rfl, -⟩ | ⟨g, m', rfl, -⟩)
  · rfl
  · have hg : g ≠ f := by
      rintro rfl
      exact ht m' low heq
    simp [Task.holds, hg]

/-- The body of a fiber sees its flag if and only if its stack is being unwound, as long as nobody
unwinds a fiber that runs. -/
theorem Run.flagged_iff (h : Run (start bodies steps) es s) (hr : f ∈ running s.control.stack) :
    (s.control.fiberD f).cancelling = true ↔ (f, true) ∈ bases s.control.stack := by
  have hsane := h.sound.order.sane f
  constructor
  · rintro hc
    obtain ⟨forced, hb⟩ := mem_running.mp hr
    cases forced with
    | true => exact hb
    | false =>
      have hp := phase_of_isActive (h.sound.order.stack.isActive hb)
      have ho := (hsane.cancelling hc).2
      rw [hp] at ho
      cases ho
  · rintro hb
    cases hsane.stage with
    | unwinding _ _ hk => exact hk
    | unborn _ _ hn => exact absurd hr hn
    | fresh _ hn => exact absurd hr hn
    | parked _ _ hn => exact absurd hr hn
    | spent _ hn => exact absurd hr hn
    | active hp =>
      have ho := (h.sound.order.stack.spent hb).2
      rw [hp] at ho
      cases ho

def Step.isSuspend : Step → Bool
  | .suspend => true
  | _ => false

def heeds (s : Session) : Bool :=
  s.next?.all fun st =>
    (st.targets s).all (fun f => !(running s.control.stack).contains f) &&
      !(st.isSuspend && (bases s.control.stack).head?.any Prod.snd)

theorem heeds_sound (h : heeds s = true) : Heeds s := by
  refine ⟨fun st hst f hf => ?_, fun hst f hf => ?_⟩
  · rw [heeds, Option.mem_def.mp hst] at h
    simp only [Option.all_some, Bool.and_eq_true, List.all_eq_true] at h
    simpa using h.1 f hf
  · rw [heeds, hst, hf] at h
    simp [Step.isSuspend] at h

/-- What happens in the next steps, as long as they heed the rules. -/
def follow : Nat → Session → Option (List Event × Session)
  | 0, s => some ([], s)
  | n + 1, s =>
    (follow n s).bind fun (es, s₁) =>
      if heeds s₁ then s₁.step.map fun s₂ => (s₁.events ++ es, s₂) else none

theorem run_of_follow {n : Nat} (h : follow n s = some (es, s')) : Run s es s' := by
  induction n generalizing es s' with
  | zero =>
    cases h
    exact .refl
  | succ n ih =>
    obtain ⟨⟨es₁, s₁⟩, h₁, h₂⟩ := Option.bind_eq_some_iff.mp h
    dsimp only at h₂
    split at h₂
    · rename_i hh
      obtain ⟨s₂, hs, heq⟩ := Option.map_eq_some_iff.mp h₂
      cases heq
      exact .step (ih h₁) (heeds_sound hh) hs
    · cases h₂

/-- A body that is unwound sees its flag in a frame that catches the panic. -/
theorem Run.flagged_iff_caught : ∃ es s,
    follow 16 (start [("b", [.guard false [.suspend], .cancelling])]
      [.create "f" "b" none, .resume "f", .unwind "f"]) = some (es, s) ∧
    (0 ∈ running s.control.stack) ∧
    ((s.control.fiberD 0).cancelling = true ↔ (0, true) ∈ bases s.control.stack) ∧
    (s.control.fiberD 0).cancelling = true := by
  obtain ⟨es, s, hr, hf, hc⟩ : ∃ es s,
      follow 16 (start [("b", [.guard false [.suspend], .cancelling])]
        [.create "f" "b" none, .resume "f", .unwind "f"]) = some (es, s) ∧
      0 ∈ running s.control.stack ∧ (s.control.fiberD 0).cancelling = true :=
    ⟨_, _, rfl, by decide, rfl⟩
  exact ⟨es, s, hr, hf, (run_of_follow hr).flagged_iff hf, hc⟩

/-- A body that unwinds its own fiber goes on and sees the flag. -/
theorem cancelling_of_refused_unwind :
    let s := run 8 (start [("b", [.unwind "f", .cancelling])] [.create "f" "b" none, .resume "f"])
    (s.control.fiberD 0).cancelling = true ∧ bases s.control.stack = [(0, false)] :=
  ⟨rfl, rfl⟩

end Switchyard.Fiber.Session
