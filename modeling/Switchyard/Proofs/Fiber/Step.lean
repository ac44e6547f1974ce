import Switchyard.Proofs.Fiber.Moves

/-!
# The steps of a fiber session

Every step that heeds the rules keeps all fibers sane and the control stack in order.
-/

namespace Switchyard.Fiber.Session

variable {c c' : Control Task} {es z : List Event} {s s' : Session} {l low : List (Item Task)}
  {q : List Task} {t : Task} {f g : FiberId} {m : String} {table table' : Table FiberId}
  {u v : Fiber Task → Fiber Task} {y : Task → Prop}

theorem modify_modify : (c.modify f u).modify f v = c.modify f (v ∘ u) := by
  have h : (c.fibers.modify f u).modify f v = c.fibers.modify f (v ∘ u) := by
    apply Array.ext
    · simp
    · rintro i h₁ h₂
      simp only [Array.getElem_modify]
      split <;> rfl
  simp [Control.modify, h]

theorem fiberD_eq (h : c'.fibers = (c.modify f u).fibers) (g : FiberId) :
    c'.fiberD g = (c.modify f u).fiberD g := by
  rw [Control.fiberD, h, Control.fiberD]

theorem Only.of_fibers (h : c'.fibers = (c.modify f u).fibers) : Only f c c' where
  size := by rw [h, Control.size_modify]
  same g hg := by
    rw [fiberD_eq h, Control.fiberD_modify, if_neg fun h => hg h.1.symm]
    exact .refl _

theorem fiberD_self (h : c'.fibers = (c.modify f u).fibers) (hf : f < c.fibers.size) :
    c'.fiberD f = u (c.fiberD f) := by
  rw [fiberD_eq h, Control.fiberD_modify, if_pos ⟨rfl, hf⟩]

theorem Ready.modify (h : Ready es c table) (hu : Same (c.fiberD f) (u (c.fiberD f))) :
    Ready es (c.modify f u) table := by
  refine h.alike rfl rfl (by simp) fun g => ?_
  rw [Control.fiberD_modify]
  split
  · rename_i hg
    obtain ⟨rfl, -⟩ := hg
    exact hu
  · exact .refl _

theorem Ready.share (h : Ready es c table) : Ready es (c.share f) table :=
  h.modify ⟨rfl, rfl, rfl, rfl⟩

theorem not_over_of_fresh {entry discard : List Task}
    (hp : (c.fiberD f).phase = .fresh entry discard) : ¬Over c f := fun ho => by
  simp [Over, hp, Phase.isOver] at ho

theorem not_over_of_parked (hp : (c.fiberD f).phase = .parked l) : ¬Over c f := fun ho => by
  simp [Over, hp, Phase.isOver] at ho

theorem Over.phase (ho : Over c f) : (c.fiberD f).phase = .ended ∨ (c.fiberD f).phase = .taken := by
  have hp := ho.2
  cases hc : (c.fiberD f).phase with
  | ended => exact .inl rfl
  | taken => exact .inr rfl
  | _ => simp [hc, Phase.isOver] at hp

theorem Over.resume (ho : Over c f) : c.resume f = some c := by
  rcases ho.phase with hp | hp <;> simp [Control.resume, hp]

theorem Over.resumed (ho : Over c f) : resumed c f = [] := by
  rcases ho.phase with hp | hp <;> simp [Session.resumed, hp]

theorem Over.givenUp (ho : Over c f) : givenUp c f = [] := by
  rcases ho.phase with hp | hp <;> simp [Session.givenUp, hp]

theorem segment_entry (steps : List Step) (mark : Option String) :
    Segment f ((opening f steps mark).map .task) := by
  refine ⟨⟨[], _, rfl⟩, rfl, ?_⟩
  cases mark with
  | none => trivial
  | some m => exact ⟨rfl, trivial⟩

theorem Ready.resume (h : Ready es c table) (hf : f < c.fibers.size) (hr : f ∉ running c.stack)
    (inside : Bool) (name : String) :
    ∃ c', ((c.share f).push [.dropHandle f, .status inside name f]).resume f = some c' ∧
      Ready (resumed c f ++ es) c' table := by
  have hself : ((c.share f).push [.dropHandle f, .status inside name f]).fiberD f =
      { c.fiberD f with handles := (c.fiberD f).handles + 1 } := fiberD_self (c := c) rfl hf
  cases (h.sane f).stage with
  | unborn hn => exact absurd hf (Nat.not_lt.mpr hn)
  | @fresh steps mark hp _ hc =>
    simp only [Control.resume, hself, resumed, hp]
    refine ⟨_, rfl, ?_⟩
    have hfib := congrArg Control.fibers (modify_modify (c := c) (f := f)
      (u := fun s => { s with handles := s.handles + 1 })
      (v := fun s => { s with phase := .active, armed := true, started := true }))
    refine h.mount (k := (opening f steps mark).map .task)
      (.of_fibers hfib) hr (not_over_of_fresh hp) (segment_entry steps mark) ?_ rfl rfl ?_ ?_ ?_
      ?_ rfl rfl (n := 0) ?_
    · rintro m
      rw [hp]
      simp [kept, opening, Task.holds]
    · exact congrArg Fiber.phase (fiberD_self hfib hf)
    · exact congrArg Fiber.armed (fiberD_self hfib hf)
    · exact (congrArg Fiber.finished (fiberD_self hfib hf)).trans rfl
    · exact (congrArg Fiber.cancelling (fiberD_self hfib hf)).trans rfl
    · rw [← List.singleton_append, course_append, hc]
      simp [course, Event.isTurn, Event.fiber, laps]
  | active _ hb => exact absurd (mem_running.mpr ⟨_, hb⟩) hr
  | @parked stk n hp hseg _ ha hc =>
    simp only [Control.resume, hself, resumed, hp]
    refine ⟨_, rfl, ?_⟩
    have hfib := congrArg Control.fibers (modify_modify (c := c) (f := f)
      (u := fun s => { s with handles := s.handles + 1 })
      (v := fun s => { s with phase := .active }))
    refine h.mount (.of_fibers hfib) hr (not_over_of_parked hp) hseg (fun m => by rw [hp]; rfl)
      rfl rfl ?_ ?_ ?_ ?_ rfl rfl (n := n + 1) ?_
    · exact congrArg Fiber.phase (fiberD_self hfib hf)
    · exact (congrArg Fiber.armed (fiberD_self hfib hf)).trans ha
    · exact (congrArg Fiber.finished (fiberD_self hfib hf)).trans rfl
    · exact (congrArg Fiber.cancelling (fiberD_self hfib hf)).trans rfl
    · rw [← List.singleton_append, course_append, hc, laps_succ]
      simp [course, Event.isTurn, Event.fiber]
  | unwinding _ hb => exact absurd (mem_running.mpr ⟨_, hb⟩) hr
  | spent ho =>
    have ho' : Over ((c.share f).push [.dropHandle f, .status inside name f]) f :=
      ⟨by simpa [Control.push, Control.share] using hf, by rw [hself]; exact ho.2⟩
    refine ⟨_, ho'.resume, ?_⟩
    rw [ho.resumed]
    exact h.share.push ⟨.inl ⟨ho', hr⟩, .inl trivial, h.share.stack⟩ (by simp [Task.holds])

theorem Ready.giveUp (h : Ready es c table) (hf : f < c.fibers.size) (hr : f ∉ running c.stack) :
    Ready (givenUp c f ++ es) (c.abandon f) table := by
  have hfib := congrArg Control.fibers (modify_modify (c := c) (f := f) (u := Fiber.settle)
    (v := fun s => { s with phase := .taken }))
  cases (h.sane f).stage with
  | unborn hn => exact absurd hf (Nat.not_lt.mpr hn)
  | @fresh steps mark hp _ hc =>
    simp only [Control.abandon, givenUp, hp]
    exact h.abandon (.of_fibers hfib) hr (not_over_of_fresh hp) hf rfl rfl
      (fun m => by rw [hp]; rfl) (fun g hg m => holds_drops_of_ne hg)
      (congrArg Fiber.phase (fiberD_self hfib hf)) (congrArg Fiber.armed (fiberD_self hfib hf))
  | active _ hb => exact absurd (mem_running.mpr ⟨_, hb⟩) hr
  | @parked stk n hp hseg _ ha hc =>
    simp only [Control.abandon, givenUp, hp]
    exact h.abandon (.of_fibers hfib) hr (not_over_of_parked hp) hf rfl rfl
      (fun m => by rw [hp]; rfl) (fun g hg m => hseg.holds_eq_zero hg)
      (congrArg Fiber.phase (fiberD_self hfib hf)) (congrArg Fiber.armed (fiberD_self hfib hf))
  | unwinding _ hb => exact absurd (mem_running.mpr ⟨_, hb⟩) hr
  | spent ho =>
    have hc : c.abandon f =
        (c.modify f Fiber.settle).modify f fun s => { s with phase := .taken } := by
      rcases ho.phase with hp | hp <;> simp [Control.abandon, hp]
    rw [hc, ho.givenUp]
    exact h.take (.of_fibers hfib) hr ho rfl rfl
      (congrArg (·.phase.isOver) (fiberD_self hfib hf)) fun _ =>
        congrArg Fiber.armed (fiberD_self hfib hf)

/-- A fiber is told that its stack is dropped, and nothing else about it changes. -/
structure Outer (s s' : Fiber Task) : Prop where
  phase : s'.phase = s.phase
  armed : s'.armed = s.armed
  finished : s'.finished = s.finished
  cancelling : s'.cancelling = true

theorem Ready.destroy_over (panicking : Bool) (h : Ready es c table) (hov : Over c f)
    (hr : f ∉ running c.stack) (hu : Outer (c.fiberD f) (u (c.fiberD f)))
    (hts : ∀ c', Over c' f → Strict c' c.stack → Strict c' (q.map .task ++ c.stack))
    (hh : ∀ f m, holds f m (q.map .task) = 0) :
    ∃ c', ((c.modify f u).push q).destroy f panicking = (c', false) ∧ Ready es c' table ∧
      c'.stack = q.map .task ++ c.stack ∧ ∀ g, Over c g → Over c' g := by
  have hfib := congrArg Control.fibers (modify_modify (c := c) (f := f) (u := u)
    (v := fun s => { s with phase := .taken }))
  have hphase : (((c.modify f u).push q).fiberD f).phase = (c.fiberD f).phase :=
    (congrArg Fiber.phase (fiberD_self (c := c) rfl hov.1)).trans hu.phase
  have hd : ((c.modify f u).push q).destroy f panicking =
      (((c.modify f u).modify f fun s => { s with phase := .taken }).push q, false) := by
    rcases hov.phase with hp | hp <;> simp only [Control.destroy, hphase, hp] <;> rfl
  have ho : Only f c ((c.modify f u).modify f fun s => { s with phase := .taken }) :=
    .of_fibers hfib
  have hself := fiberD_self (c := c) hfib hov.1
  have htake : Ready es ((c.modify f u).modify f fun s => { s with phase := .taken }) table := by
    refine h.take ho hr hov rfl rfl (congrArg (·.phase.isOver) hself) fun hf => ?_
    rw [hself] at hf ⊢
    have hfin : (c.fiberD f).finished = true := hu.finished ▸ hf
    exact hu.armed.trans ((h.sane f).finished hfin).2
  have hov' : Over ((c.modify f u).modify f fun s => { s with phase := .taken }) f :=
    ⟨ho.size ▸ hov.1, congrArg (·.phase.isOver) hself⟩
  exact ⟨_, hd, htake.push (hts _ hov' htake.stack) hh, rfl, fun g hg => ho.spent (fun _ => hov') hg⟩

theorem Ready.destroy (h : Ready es c table) (hf : f < c.fibers.size) (hr : f ∉ running c.stack)
    (hu : Outer (c.fiberD f) (u (c.fiberD f)))
    (hts : ∀ c', Over c' f → Strict c' c.stack → Strict c' (q.map .task ++ c.stack))
    (hh : ∀ f m, holds f m (q.map .task) = 0) :
    let r := ((c.modify f u).push q).destroy f false
    if r.2 then Ready es (r.1.push [.fail .cancel]) table else InOrder es r.1 (Loose r.1) table := by
  have hself : ((c.modify f u).push q).fiberD f = u (c.fiberD f) := fiberD_self (c := c) rfl hf
  have hfib := congrArg Control.fibers (modify_modify (c := c) (f := f) (u := u)
    (v := fun s => { s with phase := .taken }))
  have hstrict : ∀ c', c'.fibers = ((c.modify f u).modify f fun s =>
      { s with phase := .taken }).fibers → Strict c' (q.map .task ++ c.stack) := by
    rintro c' hc'
    have ho : Only f c c' := .of_fibers (hc'.trans hfib)
    have hov' : Over c' f := ⟨ho.size ▸ hf, by
      rw [fiberD_self (hc'.trans hfib) hf]
      rfl⟩
    exact hts c' hov' (ho.below (fun _ => hov') h.stack hr)
  cases (h.sane f).stage with
  | unborn hn => exact absurd hf (Nat.not_lt.mpr hn)
  | @fresh steps mark hp _ hc =>
    simp only [Control.destroy, hself, hu.phase, hp]
    exact h.discard (.of_fibers hfib) hr hp rfl rfl (hstrict _ rfl) hh
      (congrArg Fiber.phase (fiberD_self hfib hf))
      ((congrArg Fiber.finished (fiberD_self hfib hf)).trans hu.finished)
  | active _ hb => exact absurd (mem_running.mpr ⟨_, hb⟩) hr
  | @parked stk n hp hseg _ ha hc =>
    simp only [Control.destroy, hself, hu.phase, hp]
    exact h.unwind (.of_fibers hfib) hr hp rfl rfl (hstrict _ rfl) hh
      (congrArg Fiber.phase (fiberD_self hfib hf))
      ((congrArg Fiber.finished (fiberD_self hfib hf)).trans hu.finished)
      ((congrArg Fiber.cancelling (fiberD_self hfib hf)).trans hu.cancelling)
  | unwinding _ hb => exact absurd (mem_running.mpr ⟨_, hb⟩) hr
  | spent ho =>
    obtain ⟨c', heq, hready, -⟩ := h.destroy_over false ho hr hu hts hh
    simp only [heq]
    exact ⟨hready.sane, Strict.loosen hready.stack, hready.named⟩

/-- A machine that broke off drops values and handles until the next catch. -/
def Failing (c : Control Task) : List (Item Task) → Prop
  | [] => True
  | .task (.fail _) :: _ => True
  | .task (.dropMark ..) :: rest => Failing c rest
  | .task (.dropHandle f) :: rest => Over c f ∧ Failing c rest
  | _ => False

/-- The state between two steps, after the events `es`. -/
structure Sound (es : List Event) (s : Session) : Prop where
  order : InOrder es s.control (Loose s.control) s.table
  calm : s.panics = 0 ∨ s.panics = 1 ∧ Failing s.control s.control.stack

theorem InOrder.sound (h : InOrder es s.control (Loose s.control) s.table) (hp : s.panics = 0) :
    Sound es s := ⟨h, .inl hp⟩

theorem Ready.sound (h : Ready es s.control s.table) (hp : s.panics = 0) : Sound es s :=
  ⟨⟨h.sane, Strict.loosen h.stack, h.named⟩, .inl hp⟩

/-- A task with no demands. -/
def Task.isPlain : Task → Bool
  | .outer _ | .note .. | .status .. | .guardEnd _ | .outerEnd _ | .leave | .fail _ => true
  | _ => false

theorem Task.isPlain.suits (h : t.isPlain = true) : t.Suits c l := by
  cases t <;> trivial

theorem Task.isPlain.holds (h : t.isPlain = true) : t.holds f m = 0 := by
  cases t <;> first | rfl | simp [isPlain] at h

theorem Ready.pushPlain (h : Ready es c table) (ht : q.all Task.isPlain = true) :
    Ready es (c.push q) table := by
  have hts : Strict c (q.map .task ++ c.stack) ∧ ∀ f m, Session.holds f m (q.map .task) = 0 := by
    induction q with
    | nil => exact ⟨h.stack, fun _ _ => rfl⟩
    | cons t q ih =>
      simp only [List.all_cons, Bool.and_eq_true] at ht
      obtain ⟨hs, hh⟩ := ih ht.2
      refine ⟨⟨.inl (Task.isPlain.suits ht.1), hs⟩, fun f m => ?_⟩
      simp [Task.isPlain.holds ht.1, hh]
  exact h.push hts.1 hts.2

theorem Ready.note (h : Ready es s.control s.table) (hp : s.panics = 0) {inside : Bool}
    {name : String} {d : Datum} : Sound es (s.push [.note inside name d]) :=
  Ready.sound (s := s.push _) (h.pushPlain rfl) hp

theorem Ready.dropHandle (h : Ready es c table) (hf : f < c.fibers.size)
    (hr : f ∉ running c.stack) :
    InOrder es (c.push [.dropHandle f]) (Loose (c.push [.dropHandle f])) table :=
  h.push ⟨.inr (.inl ⟨f, rfl, hf, hr⟩), h.stack⟩ (by simp [Task.holds])

theorem named_insert {name : String} {x : FiberId} (h : ∀ e ∈ table.entries, e.2 < c.fibers.size)
    (hx : x < c.fibers.size) : ∀ e ∈ (table.insert name x).entries, e.2 < c.fibers.size := by
  rintro e he
  rcases List.mem_cons.mp ((Table.place_perm name x _).mem_iff.mp he) with rfl | he
  · exact hx
  · exact h e (List.mem_filter.mp he).1

theorem InOrder.retable (h : InOrder es c y table)
    (ht : ∀ e ∈ table'.entries, e.2 < c.fibers.size) : InOrder es c y table' :=
  ⟨h.sane, h.stack, ht⟩

theorem Ready.bound {name : String} {x : FiberId} {inside : Bool} {k : String} {d : Datum}
    (h : Ready es s.control s.table) (hp : s.panics = 0) (hx : x < s.control.fibers.size)
    (hout : ∀ g ∈ s.table.find? name, g ∉ running s.control.stack) :
    Sound es ((bind name x s).1.push ((bind name x s).2 ++ [.note inside k d])) := by
  have ht : Ready es s.control (s.table.insert name x) := h.retable (named_insert h.named hx)
  cases hf : s.table.find? name with
  | none =>
    simp only [bind, hf]
    exact Ready.note (s := { s with table := s.table.insert name x }) ht hp
  | some g =>
    simp only [bind, hf]
    exact ⟨(ht.pushPlain (q := [.note inside k d]) rfl).dropHandle (h.lt_size hf) (hout g hf),
      .inl hp⟩

theorem Ready.unwound (h : Ready es c s.table) (hp : s.panics = 0)
    (hf : f < c.fibers.size) (hr : f ∉ running c.stack)
    (hu : Outer (c.fiberD f) (u (c.fiberD f)))
    (hts : ∀ c', Over c' f → Strict c' c.stack → Strict c' (q.map .task ++ c.stack))
    (hh : ∀ f m, holds f m (q.map .task) = 0) :
    Sound es (startUnwind (((c.modify f u).push q).destroy f (s.panics > 0)) s) := by
  have hd := h.destroy hf hr hu hts hh
  have hfalse : decide (s.panics > 0) = false := by simp [hp]
  rw [hfalse]
  generalize ((c.modify f u).push q).destroy f false = r at hd
  obtain ⟨c', b⟩ := r
  cases b with
  | true =>
    exact ⟨⟨hd.sane, Strict.loosen hd.stack, hd.named⟩,
      .inr ⟨by simp [startUnwind, hp], trivial⟩⟩
  | false => exact InOrder.sound (s := { s with control := c' }) hd hp

theorem Sane.not_active (h : Sane es c f) (hr : f ∉ running c.stack) :
    (c.fiberD f).isActive = false := by
  by_contra hn
  have hp := phase_of_isActive (Bool.not_eq_false _ ▸ hn)
  cases h.stage with
  | unborn hf => exact absurd (lt_size_of_phase (by rw [hp]; rfl)) (Nat.not_lt.mpr hf)
  | fresh hp' => cases hp.symm.trans hp'
  | active _ hb => exact hr (mem_running.mpr ⟨_, hb⟩)
  | parked hp' => cases hp.symm.trans hp'
  | unwinding ho => simp [Over, hp, Phase.isOver] at ho
  | spent ho => simp [Over, hp, Phase.isOver] at ho

theorem Ready.onFiber (inside : Bool) (st : Step) (name : String)
    (h : Ready es s.control s.table) (hp : s.panics = 0)
    (hname : ∀ f, s.table.find? name = some f → ∀ g ∈ st.targets s, g ∉ running s.control.stack)
    (hst : st = .resume name ∨ st = .status name ∨ st = .info name ∨ st = .unwind name ∨
      st = .abandon name ∨ (∃ other, st = .share name other) ∨ st = .suspendOutside name) :
    Sound (st.events s ++ es) (runNamed inside st name s) := by
  cases hf : s.table.find? name with
  | none =>
    have hev : st.events s = [] := by
      rcases hst with rfl | rfl | rfl | rfl | rfl | ⟨_, rfl⟩ | rfl <;> simp [Step.events, hf]
    rw [hev]
    simp only [runNamed, hf]
    exact h.note hp
  | some f =>
    have hlt := h.lt_size hf
    rcases hst with rfl | rfl | rfl | rfl | rfl | ⟨other, rfl⟩ | rfl
    · have hr : f ∉ running s.control.stack := hname f hf f (by simp [Step.targets, hf])
      obtain ⟨c', hc', hready⟩ := h.resume hlt hr inside (Step.resume name).name
      simp only [runNamed, hf, hc', Step.events, Option.elim]
      exact Ready.sound (s := { s with control := c' }) hready hp
    · simp only [runNamed, hf]
      exact h.note hp
    · simp only [runNamed, hf]
      exact h.note hp
    · have hr : f ∉ running s.control.stack := hname f hf f (by simp [Step.targets, hf])
      simp only [runNamed, hf, (h.sane f).not_active hr, Control.share, modify_modify]
      exact h.unwound hp hlt hr ⟨rfl, rfl, rfl, rfl⟩
        (fun c' ho hs => ⟨.inl ⟨ho, hr⟩, .inl ⟨ho, hr⟩, .inl trivial, hs⟩) (by simp [Task.holds])
    · have hr : f ∉ running s.control.stack := hname f hf f (by simp [Step.targets, hf])
      simp only [runNamed, hf, Step.events, Option.elim]
      exact Ready.note (s := { s with control := s.control.abandon f }) (h.giveUp hlt hr) hp
    · simp only [runNamed, hf]
      exact Ready.bound (s := { s with control := s.control.share f }) h.share hp
        (by simpa [Control.share] using hlt) fun g hg =>
          hname f hf g (by simp [Step.targets, hf, Option.mem_def.mp hg])
    · simp only [runNamed, hf]
      exact h.note hp

theorem Ready.onShared (inside : Bool) (st : Step) (h : Ready es s.control s.table)
    (hp : s.panics = 0) (hout : ∀ f ∈ st.targets s, f ∉ running s.control.stack) :
    Sound (st.events s ++ es) (runShared inside st s) := by
  cases st with
  | create name body mark =>
    have hsize : (s.control.create (opening s.control.fibers.size
        ((s.bodies.lookup body).getD []) mark) (drops s.control.fibers.size mark)).2.fibers.size =
        s.control.fibers.size + 1 := by simp [Control.create]
    have hready := h.create hsize rfl rfl (fiberD_create _ _)
    exact Ready.bound (s := { s with control := (s.control.create (opening s.control.fibers.size
      ((s.bodies.lookup body).getD []) mark) (drops s.control.fibers.size mark)).2 }) hready hp
      (hsize ▸ Nat.lt_succ_self _) fun g hg => hout g (by simpa [Step.targets] using hg)
  | drop name =>
    cases hf : s.table.find? name with
    | none =>
      simp only [runShared, hf]
      exact h.note hp
    | some f =>
      simp only [runShared, hf]
      have ht : Ready es s.control (s.table.erase name) :=
        h.retable fun e he => h.named e (List.mem_filter.mp he).1
      exact ⟨(ht.pushPlain (q := [.note inside _ _]) rfl).dropHandle (h.lt_size hf)
        (hout f (by simp [Step.targets, hf])), .inl hp⟩
  | resume n => exact h.onFiber inside _ n hp (fun _ _ => hout) (.inl rfl)
  | status n => exact h.onFiber inside _ n hp (fun _ _ => hout) (.inr (.inl rfl))
  | info n => exact h.onFiber inside _ n hp (fun _ _ => hout) (.inr (.inr (.inl rfl)))
  | unwind n => exact h.onFiber inside _ n hp (fun _ _ => hout) (.inr (.inr (.inr (.inl rfl))))
  | abandon n =>
    exact h.onFiber inside _ n hp (fun _ _ => hout) (.inr (.inr (.inr (.inr (.inl rfl)))))
  | share n o =>
    exact h.onFiber inside _ n hp (fun _ _ => hout)
      (.inr (.inr (.inr (.inr (.inr (.inl ⟨o, rfl⟩))))))
  | suspendOutside n =>
    exact h.onFiber inside _ n hp (fun _ _ => hout)
      (.inr (.inr (.inr (.inr (.inr (.inr rfl))))))
  | _ => exact h.note hp

section

variable {rest : List Step} {marks : List String} (h : Ready es s.control s.table)
  (hs : s.control.stack = .task (.steps rest) :: .task (.frame f marks) :: low) (hp : s.panics = 0)

include h hs

theorem Ready.framed : ground low = some f ∧ Resident low ∧ Strict s.control low := by
  have hb := h.stack
  rw [hs] at hb
  obtain ⟨-, hf, hlow⟩ := hb
  exact ⟨(hf.resolve_right id).1, (hf.resolve_right id).2, hlow⟩

include hp in
theorem Ready.reframe {marks' : List String}
    (hv : ∀ g m, (Task.frame f marks).holds g m + z.count (.made g m) =
      holds g m (q.map .task) + (Task.frame f marks').holds g m)
    (hev : ∀ e ∈ z, ∃ m, e = .made f m)
    (hts : ∀ l, ground l = some f → Strict s.control l → Strict s.control (q.map .task ++ l)) :
    Sound (z ++ es) ((s.withMarks marks').push q) := by
  obtain ⟨hg, hres, hlow⟩ := h.framed hs
  have hst : ((s.withMarks marks').push q).control.stack =
      q.map .task ++ .task (.steps rest) :: .task (.frame f marks') :: low := by
    show q.map .task ++ setMarks marks' s.control.stack = _
    rw [hs]
    rfl
  have hstrict : Strict s.control (q.map .task ++
      .task (.steps rest) :: .task (.frame f marks') :: low) :=
    hts _ hg ⟨.inl ⟨f, marks', low, rfl⟩, .inl ⟨hg, hres⟩, hlow⟩
  refine Ready.sound (h.work rfl rfl ?_ (fun g m => ?_) ?_ (hst ▸ hstrict)) hp
  · simp [hst, hs]
  · have hd : z.count (.dropped g m) = 0 := List.count_eq_zero.mpr fun hm => by
      obtain ⟨_, heq⟩ := hev _ hm
      cases heq
    have := hv g m
    simp only [hst, hs, hd, holds_append, holds_task]
    omega
  · rintro e he
    obtain ⟨m, rfl⟩ := hev e he
    exact .inl ⟨f, m, rfl, by simpa [hs] using mem_running_of_ground hg⟩

include hp in
theorem Ready.suspends (ha : (s.control.fiberD f).armed = true)
    (hup : ∀ g, (bases s.control.stack).head? ≠ some (g, true)) :
    Sound ([.suspended f] ++ es) (runInside .suspend s) := by
  obtain ⟨hg, hres, hlow⟩ := h.framed hs
  have hframe : frame? s.control.stack = some (f, marks) := by rw [hs]; rfl
  have hrun : f ∈ running s.control.stack := by simpa [hs] using mem_running_of_ground hg
  have hw := h.pushPlain (q := [.note true Step.suspend.name (.bool true)]) rfl
  obtain ⟨⟨above, f', forced, below⟩, hsplit⟩ := split_isSome
    (l := .task (.note true Step.suspend.name (.bool true)) :: s.control.stack) hrun
  obtain ⟨heq, habove⟩ := split_eq hsplit
  have hbases : bases s.control.stack = (f', forced) :: bases below := by
    have := congrArg bases heq
    simpa [habove] using this
  obtain rfl : f' = f := by
    have hg' : ground s.control.stack = some f := by rw [hs]; exact hg
    simpa [ground, running, hbases] using hg'
  cases forced with
  | true => exact absurd (by rw [hbases]; rfl) (hup f')
  | false =>
    have hsusp : (s.push [.note true Step.suspend.name (.bool true)]).control.suspend =
        some { (s.control.modify f' fun x => { x with phase := .parked above }) with
          stack := below } := by
      show (Control.split (_ :: s.control.stack)).map _ = _
      rw [hsplit]
      rfl
    simp only [runInside, hframe, Option.getD_some, ha, if_true, hsusp]
    have hself : ({ (s.control.modify f' fun x => { x with phase := .parked above }) with
        stack := below } : Control Task).fiberD f' =
        { s.control.fiberD f' with phase := .parked above } :=
      fiberD_self (c := s.control) rfl (h.stack.lt_size hrun)
    refine InOrder.sound (s := { s with control := _ }) ?_ hp
    refine hw.suspend (.of_fibers (u := fun x => { x with phase := .parked above }) rfl) heq
      habove ?_ rfl rfl (congrArg Fiber.phase hself)
      ((congrArg Fiber.armed hself).trans rfl) ((congrArg Fiber.finished hself).trans rfl)
      ((congrArg Fiber.cancelling hself).trans rfl)
    rw [show (Control.push _ s.control).stack = _ :: s.control.stack from rfl, hs]
    exact ⟨rfl, rfl, rfl, hres⟩

include hp in
theorem Ready.onBody (st : Step) (hout : ∀ g ∈ st.targets s, g ∉ running s.control.stack)
    (hup : st = .suspend → ∀ g, (bases s.control.stack).head? ≠ some (g, true)) :
    Sound (st.eventsOn s f ++ es) (runInside st s) := by
  obtain ⟨hg, hres, hlow⟩ := h.framed hs
  have hframe : frame? s.control.stack = some (f, marks) := by rw [hs]; rfl
  cases st with
  | suspend =>
    by_cases ha : (s.control.fiberD f).armed = true
    · simp only [Step.eventsOn, ha, if_true]
      exact h.suspends hs hp ha (hup rfl)
    · simp only [Step.eventsOn, ha, runInside, hframe, Option.getD_some]
      exact h.note hp
  | cancelling => exact h.note hp
  | mark m =>
    simp only [runInside, hframe, Option.getD_some, Step.eventsOn]
    refine h.reframe hs hp (z := [.made f m]) (fun g m' => ?_) (by simp)
      fun l _ hl => ⟨.inl trivial, hl⟩
    by_cases hf : f = g <;> by_cases hm : m = m' <;> simp [Task.holds, hf, hm]
  | pop =>
    cases marks with
    | nil =>
      simp only [runInside, hframe, Option.getD_some]
      exact h.note hp
    | cons m rest' =>
      simp only [runInside, hframe, Option.getD_some]
      refine h.reframe hs hp (z := []) (fun g m' => ?_) (by simp)
        fun l hg hl => ⟨.inl hg, .inl trivial, hl⟩
      by_cases hf : f = g <;> by_cases hm : m = m' <;> simp [Task.holds, hf, hm, Nat.add_comm]
  | panic x =>
    exact ⟨⟨(h.pushPlain (q := [.fail _]) rfl).sane, Strict.loosen (h.pushPlain rfl).stack,
      h.named⟩, .inr ⟨by simp [runInside, fail, hp], trivial⟩⟩
  | leave => exact Ready.sound (s := s.push _) (h.pushPlain rfl) hp
  | call steps =>
    have hst : Strict s.control ([Task.steps steps, .frame f [],
        .note true (Step.call steps).name .null].map .task ++ s.control.stack) := by
      refine ⟨.inl ⟨f, [], _, rfl⟩, .inl ⟨?_, ?_⟩, .inl trivial, h.stack⟩
      · rw [hs]; exact hg
      · rw [hs]; exact ⟨rfl, rfl, rfl, hres⟩
    simp only [runInside, hframe, Option.getD_some]
    exact Ready.sound (s := s.push _) (h.push hst (by simp [Task.holds])) hp
  | guard pass steps =>
    have hst : Strict s.control ([Task.steps steps, .frame f [], .guardEnd pass].map .task ++
        s.control.stack) := by
      refine ⟨.inl ⟨f, [], _, rfl⟩, .inl ⟨?_, ?_⟩, .inl trivial, h.stack⟩
      · rw [hs]; exact hg
      · rw [hs]; exact ⟨rfl, rfl, rfl, hres⟩
    simp only [runInside, hframe, Option.getD_some]
    exact Ready.sound (s := s.push _) (h.push hst (by simp [Task.holds])) hp
  | create => exact h.onShared true _ hp hout
  | _ => exact h.onShared true _ hp hout

end

abbrev onStack (s : Session) (l : List (Item Task)) : Session :=
  { s with control := { s.control with stack := l } }

theorem InOrder.pop (h : InOrder es c y table) (hst : c.stack = .task t :: low)
    (ht : ∀ f m, t.holds f m = 0) : Ready es { c with stack := low } table := by
  have hb := h.stack
  rw [hst] at hb
  exact h.work (z := []) rfl rfl (by simp [hst]) (by simp [hst, ht]) (by simp) hb.2

theorem Failing.mono (h : Failing c l) (ho : ∀ f, Over c f → Over c' f) : Failing c' l := by
  induction l with
  | nil => trivial
  | cons i l ih =>
    cases i with
    | base f forced => exact h.elim
    | task t =>
      cases t with
      | fail p => trivial
      | dropMark f m => exact ih h
      | dropHandle f => exact ⟨ho f h.1, ih h.2⟩
      | _ => exact h.elim

theorem failing_drops (marks : List String) (h : Failing c l) :
    Failing c ((marks.map (Task.dropMark f)).map .task ++ l) := by
  induction marks with
  | nil => exact h
  | cons m marks ih => exact ih

theorem strict_drops (marks : List String) (hg : ground l = some f) (h : Strict c l) :
    Strict c ((marks.map (Task.dropMark f)).map .task ++ l) := by
  induction marks with
  | nil => exact h
  | cons m marks ih =>
    refine ⟨.inl ?_, ih⟩
    show ground ((marks.map (Task.dropMark f)).map .task ++ l) = some f
    rw [ground, running_append, running_tasks, List.nil_append]
    exact hg

theorem InOrder.landed {forced : Bool} (h : InOrder es c y table)
    (hst : c.stack = .base f forced :: low) :
    Ready es (({ c with stack := low } : Control Task).land f forced) table := by
  have hf : f < c.fibers.size := h.stack.lt_size (by simp [hst])
  have hself : (({ c with stack := low } : Control Task).land f forced).fiberD f = _ :=
    fiberD_self (c := c) rfl hf
  refine h.land (.of_fibers rfl) hst rfl rfl ?_ ?_
  · rw [hself]
    cases forced with
    | true => exact (h.stack.spent (by simp [hst])).2
    | false => rfl
  · rw [hself]
    cases forced <;> rfl

theorem Ready.failing (h : Ready es s.control s.table) (hp : s.panics = 0 ∨ s.panics = 1)
    (hf : Failing s.control s.control.stack) : Sound es s :=
  ⟨⟨h.sane, Strict.loosen h.stack, h.named⟩, hp.imp id fun hp => ⟨hp, hf⟩⟩

theorem Ready.meets (p : Panic) (h : Ready es s.control s.table)
    (hst : s.control.stack = .task t :: low) (hp : s.panics = 0 ∨ s.panics = 1) :
    Sound es (unwindTask p t (s.onStack low)) := by
  have hb := h.stack
  rw [hst] at hb
  obtain ⟨hs, hlow⟩ := hb
  replace hs := hs.resolve_right id
  have hplain : ∀ q : List Task, q.all Task.isPlain = true → (∀ f m, t.holds f m = 0) →
      Ready es (({ s.control with stack := low } : Control Task).push q) s.table :=
    fun q hts ht => (h.pop hst ht).pushPlain hts
  cases t with
  | frame f marks =>
    have hst' : ((s.onStack low).push (marks.map (Task.dropMark f) ++ [.fail p])).control.stack =
        (marks.map (Task.dropMark f)).map .task ++ .task (.fail p) :: low := by
      show (marks.map (Task.dropMark f) ++ [Task.fail p]).map .task ++ low = _
      simp
    refine Ready.failing ?_ hp ?_
    · refine h.work (z := []) rfl rfl ?_ (fun g m => ?_) (by simp) ?_
      · simp only [unwindTask, hst']
        rw [bases_append, bases_tasks, hst]
        rfl
      · simp only [unwindTask, hst', hst, holds_append, holds_drops, holds_task]
        simp [Task.holds]
      · simp only [unwindTask, hst']
        exact strict_drops marks hs.1 ⟨.inl trivial, hlow⟩
    · simp only [unwindTask, hst']
      exact failing_drops marks trivial
  | dropMark f m =>
    refine Ready.failing ?_ hp trivial
    refine h.work (z := []) rfl rfl ?_ (fun g m' => ?_) (by simp) ⟨.inl hs, .inl trivial, hlow⟩
    · show bases (.task (.dropMark f m) :: .task (.fail p) :: low) = _
      rw [hst]
      rfl
    · show _ = _ + holds g m' (.task (.dropMark f m) :: .task (.fail p) :: low)
      simp [hst, Task.holds]
  | dropHandle f =>
    refine Ready.failing ?_ hp ⟨hs.1, trivial⟩
    have hpop := h.pop hst fun _ _ => rfl
    exact hpop.push (q := [.dropHandle f, .fail p]) ⟨.inl hs, .inl trivial, hpop.stack⟩
      (by simp [Task.holds])
  | guardEnd pass =>
    simp only [unwindTask]
    split
    · exact Ready.failing (hplain [.fail p] rfl fun _ _ => rfl) hp trivial
    · refine Ready.sound (hplain [.note true _ _] rfl fun _ _ => rfl) ?_
      show s.panics - 1 = 0
      omega
  | outerEnd name =>
    refine Ready.sound (h.pop hst fun _ _ => rfl) ?_
    show s.panics - 1 = 0
    omega
  | _ => exact Ready.failing (hplain [.fail p] rfl fun _ _ => rfl) hp trivial

theorem Ready.falls (p : Panic) (h : Ready es s.control s.table)
    (hp : s.panics = 0 ∨ s.panics = 1) : Sound es (runTask (.fail p) s) := by
  cases hst : s.control.stack with
  | nil =>
    simp only [runTask, hst]
    exact h.failing hp (by rw [hst]; trivial)
  | cons i low =>
    cases i with
    | task t =>
      simp only [runTask, hst]
      exact h.meets p hst hp
    | base f forced =>
      have hland := h.landed hst
      simp only [runTask, hst]
      split
      · refine Ready.sound hland ?_
        show s.panics - 1 = 0
        omega
      · exact Ready.failing (hland.pushPlain (q := [.fail p]) rfl) hp trivial

theorem Over.modify (h : Over c g) (hu : (u (c.fiberD f)).phase = (c.fiberD f).phase) :
    Over (c.modify f u) g := by
  refine ⟨by simpa using h.1, ?_⟩
  rw [Control.fiberD_modify]
  split
  · rename_i hg
    obtain ⟨rfl, -⟩ := hg
    rw [hu]
    exact h.2
  · exact h.2

theorem entries_of_pop? {e : String × FiberId} (h : table.pop? = some (e, table')) :
    table.entries = e :: table'.entries := by
  obtain ⟨l, hl⟩ := table
  cases l with
  | nil => cases h
  | cons e' l =>
    cases h
    rfl

theorem InOrder.releases (h : InOrder es s.control (Loose s.control) s.table)
    (hst : s.control.stack = .task (.dropHandle f) :: low)
    (hp : s.panics = 0 ∨ s.panics = 1 ∧ Failing s.control s.control.stack) :
    Sound es (runTask (.dropHandle f) (s.onStack low)) := by
  have hb := h.stack
  rw [hst] at hb hp
  have hpop := h.pop hst fun _ _ => rfl
  obtain ⟨hf, hr⟩ : f < s.control.fibers.size ∧ f ∉ running low := by
    rcases hb.1 with hs | ⟨g, heq, hg, hr⟩ | ⟨g, m, heq, -⟩
    · exact ⟨hs.1.1, hs.2⟩
    · cases heq
      exact ⟨hg, by simpa [hst] using hr⟩
    · cases heq
  simp only [runTask, Control.unshare]
  split
  · rw [modify_modify]
    rcases hp with hp | ⟨hp, hov, hfail⟩
    · exact hpop.unwound (s := s.onStack low) (q := []) hp hf hr ⟨rfl, rfl, rfl, rfl⟩
        (fun c' _ hs => hs) fun _ _ => rfl
    · obtain ⟨c', heq, hready, hst', hmono⟩ := hpop.destroy_over (s.panics > 0)
        (u := (fun x => { x with cancelling := true }) ∘ fun x => { x with handles := x.handles - 1 })
        (q := []) hov hr ⟨rfl, rfl, rfl, rfl⟩ (fun c' _ hs => hs)
        fun _ _ => rfl
      show Sound es (startUnwind ((Control.push [] (Control.modify f _ _)).destroy f _) _)
      rw [heq]
      refine Ready.failing hready (.inr hp) ?_
      show Failing c' c'.stack
      rw [hst']
      exact hfail.mono hmono
  · have hm := hpop.modify (f := f) (u := fun x => { x with handles := x.handles - 1 })
      ⟨rfl, rfl, rfl, rfl⟩
    rcases hp with hp | ⟨hp, hov, hfail⟩
    · exact Ready.sound hm hp
    · exact Ready.failing hm (.inr hp) (hfail.mono fun g hg =>
        Over.modify (c := { s.control with stack := low }) hg rfl)

theorem Sound.runs (h : Sound es s) (hh : Heeds s) (hst : s.control.stack = .task t :: low) :
    Sound (s.events ++ es) (runTask t (s.onStack low)) := by
  have hcalm : (∀ p, t ≠ .fail p) → (∀ f m, t ≠ .dropMark f m) → (∀ f, t ≠ .dropHandle f) →
      s.panics = 0 := fun h₁ h₂ h₃ => by
    rcases h.calm with hp | ⟨-, hf⟩
    · exact hp
    · rw [hst] at hf
      cases t with
      | fail p => exact absurd rfl (h₁ p)
      | dropMark f m => exact absurd rfl (h₂ f m)
      | dropHandle f => exact absurd rfl (h₃ f)
      | _ => exact hf.elim
  have hb := h.order.stack
  rw [hst] at hb
  have hsuits : (∀ f m, t ≠ .dropMark f m) → (∀ f, t ≠ .dropHandle f) →
      t.Suits s.control low := fun h₂ h₃ => by
    rcases hb.1 with hs | ⟨f, heq, -⟩ | ⟨f, m, heq, -⟩
    · exact hs
    · exact absurd heq (h₃ f)
    · exact absurd heq (h₂ f m)
  have hpop := h.order.pop hst
  cases t with
  | steps l =>
    have hp := hcalm (by simp) (by simp) (by simp)
    replace hpop := hpop fun _ _ => rfl
    cases l with
    | nil =>
      simp only [events, hst, runTask]
      exact Ready.sound hpop hp
    | cons st rest =>
      obtain ⟨f, marks, low', rfl⟩ := hsuits (by simp) (by simp)
      have hready : Ready es ((s.onStack _).push [.steps rest]).control s.table :=
        hpop.push (q := [.steps rest]) ⟨.inl ⟨f, marks, low', rfl⟩, hpop.stack⟩
          (by simp [Task.holds])
      have hnext : s.next? = some st := by simp [next?, hst]
      have hrun : running ((s.onStack (.task (.frame f marks) :: low')).push
        [.steps rest]).control.stack = running s.control.stack := by rw [hst]; rfl
      have hbody := hready.onBody (s := (s.onStack _).push [.steps rest]) rfl hp st
        (fun g hg => hrun ▸ hh.outside st hnext g hg) fun hst' g => by
          have := hh.upright (hst' ▸ hnext) g
          rw [hst] at this
          exact this
      simp only [events, hst, frame?, Option.getD_some]
      exact hbody
  | outer l =>
    have hp := hcalm (by simp) (by simp) (by simp)
    replace hpop := hpop fun _ _ => rfl
    cases l with
    | nil =>
      simp only [events, hst, runTask]
      exact Ready.sound hpop hp
    | cons st rest =>
      have hnext : s.next? = some st := by simp [next?, hst]
      have hready : Ready es ((s.onStack low).push [.outerEnd st.name, .outer rest]).control
        s.table := hpop.pushPlain rfl
      have hrun : running ((s.onStack low).push [.outerEnd st.name, .outer rest]).control.stack =
        running s.control.stack := by rw [hst]; rfl
      simp only [events, hst]
      exact hready.onShared (s := (s.onStack low).push _) false st hp
        fun g hg => hrun ▸ hh.outside st hnext g hg
  | frame f marks =>
    have hp := hcalm (by simp) (by simp) (by simp)
    obtain ⟨hg, hres⟩ := hsuits (by simp) (by simp)
    simp only [events, hst, runTask]
    refine Ready.sound (h.order.work (z := []) rfl rfl ?_ (fun g m => ?_) (by simp) ?_) hp
    · show bases ((marks.map (Task.dropMark f)).map .task ++ low) = _
      rw [bases_append, bases_tasks, hst]
      rfl
    · show _ = _ + holds g m ((marks.map (Task.dropMark f)).map .task ++ low)
      rw [hst, holds_append, holds_drops]
      simp
    · exact strict_drops marks hg hb.2
  | dropMark f m =>
    have hf : f < s.control.fibers.size := by
      rcases hb.1 with hs | ⟨g, heq, -⟩ | ⟨g, m, heq, ho⟩
      · exact Below.lt_size hb.2 (mem_running_of_ground hs)
      · cases heq
      · cases heq
        exact ho.1
    have hready : Ready ([.dropped f m] ++ es) ({ s.control with stack := low } : Control Task)
        s.table := by
      refine h.order.work rfl rfl (by rw [hst]; rfl) (fun g m' => ?_) ?_ hb.2
      · rw [hst, holds_task]
        by_cases hg : f = g <;> by_cases hm : m = m' <;> simp [Task.holds, hg, hm]
      · rintro e he
        rw [List.mem_singleton] at he
        exact .inr ⟨f, m, he, hf⟩
    simp only [events, hst]
    rcases h.calm with hp | ⟨hp, hfail⟩
    · exact Ready.sound hready hp
    · rw [hst] at hfail
      exact Ready.failing hready (.inr hp) (hfail.mono fun _ ho => ho)
  | dropHandle f =>
    simp only [events, hst]
    exact h.order.releases hst h.calm
  | settle f =>
    have hp := hcalm (by simp) (by simp) (by simp)
    obtain ⟨hov, hr⟩ := hsuits (by simp) (by simp)
    simp only [events, hst, runTask]
    replace hpop := hpop fun _ _ => rfl
    have hself := fiberD_self (c := { s.control with stack := low }) (u := Fiber.settle) rfl hov.1
    refine Ready.sound (hpop.take (.of_fibers rfl) hr hov rfl rfl ?_ fun _ => ?_) hp
    · exact (congrArg (·.phase.isOver) hself).trans hov.2
    · exact congrArg Fiber.armed hself
  | dropAll =>
    have hp := hcalm (by simp) (by simp) (by simp)
    obtain rfl := hsuits (by simp) (by simp)
    replace hpop := hpop fun _ _ => rfl
    simp only [events, hst, runTask]
    split
    · exact Ready.sound hpop hp
    · rename_i name f rest heq
      have hentries := entries_of_pop? heq
      have hnamed := hentries ▸ h.order.named
      have hall : Ready es ({ s.control with stack := [.task .dropAll] } : Control Task) rest :=
        Ready.push (q := [.dropAll])
          (hpop.retable fun e he => hnamed e (List.mem_cons_of_mem _ he)) ⟨.inl rfl, trivial⟩
          (by simp [Task.holds])
      exact InOrder.sound (hall.dropHandle (hnamed _ List.mem_cons_self) (by simp)) hp
  | leave =>
    have hp := hcalm (by simp) (by simp) (by simp)
    replace hpop := hpop fun _ _ => rfl
    simp only [events, hst, runTask]
    split
    · exact Ready.sound (hpop.pop rfl fun _ _ => rfl) hp
    · exact Ready.sound hpop hp
  | fail p =>
    simp only [events, hst]
    exact Ready.falls p (hpop fun _ _ => rfl) (h.calm.imp id And.left)
  | note | status | guardEnd | outerEnd =>
    simp only [events, hst]
    exact Ready.sound (hpop fun _ _ => rfl) (hcalm (by simp) (by simp) (by simp))

theorem Sound.step (h : Sound es s) (hh : Heeds s) (hs : s.step = some s') :
    Sound (s.events ++ es) s' := by
  unfold Session.step at hs
  split at hs
  · cases hs
  · rename_i t low hst
    cases hs
    exact h.runs hh hst
  · rename_i f forced low hst
    cases hs
    have hev : s.events = [] := by simp [events, hst]
    have hp : s.panics = 0 := by
      rcases h.calm with hp | ⟨-, hf⟩
      · exact hp
      · rw [hst] at hf
        exact hf.elim
    rw [hev]
    exact Ready.sound (h.order.landed hst) hp

end Switchyard.Fiber.Session
