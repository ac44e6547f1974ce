import Switchyard.Proofs.Fiber.Course

/-!
# What a step does to a fiber

Each move of the machine changes the stack, and the phase of at most one fiber: a fiber is put on
the stack, suspended, landed, discarded, unwound or given up. The state of every fiber stays sane.
-/

namespace Switchyard.Fiber.Session

variable {c c' : Control Task} {es z : List Event} {e : Event} {x : Task → Prop}
  {l low k : List (Item Task)} {q : List Task} {t : Task} {f g : FiberId} {m : String}
  {n : Nat} {table : Table FiberId}

/-- No record but that of fiber `f` changes. -/
structure Only (f : FiberId) (c c' : Control Task) : Prop where
  size : c'.fibers.size = c.fibers.size
  same : ∀ g, g ≠ f → Same (c.fiberD g) (c'.fiberD g)

theorem Only.spent (h : Only f c c') (hf : Over c f → Over c' f) (hg : Over c g) : Over c' g := by
  by_cases heq : g = f
  · subst heq
    exact hf hg
  · refine ⟨h.size ▸ hg.1, ?_⟩
    rw [(h.same g heq).phase]
    exact hg.2

theorem Only.below (h : Only f c c') (hf : Over c f → Over c' f) (hl : Below c x l)
    (hr : f ∉ running l) : Below c' x l := by
  refine hl.mono (fun g => h.spent hf) fun g hg ha => ?_
  have hne : g ≠ f := by
    rintro rfl
    exact hr hg
  simpa [Fiber.isActive, (h.same g hne).phase] using ha

namespace Sane

variable (h : Sane es c f)

include h

theorem untouched (ho : ¬Over c f) : (c.fiberD f).finished = false ∧
    (c.fiberD f).cancelling = false ∧ .abandoned f ∉ es ∧ ∀ m, forgone c f m = 0 := by
  have hab : .abandoned f ∉ es := fun hm => ho (h.abandoned hm).spent
  refine ⟨Bool.eq_false_iff.mpr fun hf => ho (h.finished hf).1.spent,
    Bool.eq_false_iff.mpr fun hc => ho (h.cancelling hc), hab, fun m => ?_⟩
  by_contra hm
  exact hab (h.lost m hm)

theorem advance (ho : ¬Over c f) (hs : Stage (z ++ es) c' f)
    (hv : ∀ m, held c f m + z.count (.made f m) =
      z.count (.dropped f m) + (held c' f m + forgone c' f m))
    (hl : ∀ m, forgone c' f m ≠ 0 → .abandoned f ∈ z) (ha : .abandoned f ∈ z → Done c' f)
    (hf : (c'.fiberD f).finished = true → Done c' f ∧ (c'.fiberD f).armed = false)
    (hc : (c'.fiberD f).cancelling = true → Over c' f) : Sane (z ++ es) c' f where
  stage := hs
  values m := by
    have := h.values m
    have := hv m
    have := (h.untouched ho).2.2.2 m
    rw [List.count_append, List.count_append]
    omega
  lost m hm := List.mem_append_left _ (hl m hm)
  abandoned hm := (List.mem_append.mp hm).elim ha fun hm => absurd hm (h.untouched ho).2.2.1
  finished := hf
  cancelling := hc

theorem move (ho : ¬Over c f) (hs : Stage (z ++ es) c' f) (hev : ∀ e ∈ z, e.isTurn = true)
    (hh : ∀ m, held c f m = held c' f m) (hl : c'.lost = c.lost)
    (hf : (c'.fiberD f).finished = (c.fiberD f).finished)
    (hc : (c'.fiberD f).cancelling = (c.fiberD f).cancelling ∨ Over c' f) :
    Sane (z ++ es) c' f := by
  obtain ⟨hf₀, hc₀, -, hl₀⟩ := h.untouched ho
  have hl' : ∀ m, forgone c' f m = 0 := fun m => by rw [← hl₀ m, forgone, forgone, hl]
  have hno : ∀ v : Event, v.isTurn = false → v ∉ z := fun v hv hm => by
    cases hv.symm.trans (hev v hm)
  refine h.advance ho hs (fun m => ?_) (fun m hm => absurd (hl' m) hm)
    (fun hm => absurd hm (hno _ rfl)) (by simp [hf, hf₀]) ?_
  · rw [List.count_eq_zero.mpr (hno _ rfl), List.count_eq_zero.mpr (hno _ rfl), hh m, hl' m]
    omega
  · rintro hcan
    rcases hc with hc | hc
    · rw [hc, hc₀] at hcan
      cases hcan
    · exact hc

theorem rest (hd : Done c' f) (hn : course f es <+: laps f n)
    (hv : ∀ m, held c f m = held c' f m) (hl : ∀ m, forgone c' f m = forgone c f m)
    (hf : (c'.fiberD f).finished = true → (c'.fiberD f).armed = false) : Sane es c' f where
  stage := .spent hd.spent hd.idle hn
  values m := by rw [h.values m, hv m, hl m]
  lost m hm := h.lost m (hl m ▸ hm)
  abandoned _ := hd
  finished h := ⟨hd, hf h⟩
  cancelling _ := hd.spent

theorem course_laps (ho : Over c f) : ∃ n, course f es <+: laps f n := by
  cases h.stage with
  | unborn hf => exact absurd ho.1 (Nat.not_lt.mpr hf)
  | fresh hp => simp [Over, hp, Phase.isOver] at ho
  | active hp => simp [Over, hp, Phase.isOver] at ho
  | parked hp => simp [Over, hp, Phase.isOver] at ho
  | unwinding _ _ _ hc => exact ⟨_, hc⟩
  | spent _ _ hc => exact ⟨_, hc⟩

end Sane

/-- What the top of the stack may be beside a task that suits it: the last use of a handle, or the
drop of an entry that never ran. -/
def Loose (c : Control Task) (t : Task) : Prop :=
  (∃ f, t = .dropHandle f ∧ f < c.fibers.size ∧ f ∉ running c.stack) ∨
    ∃ f m, t = .dropMark f m ∧ Over c f

/-- Every fiber is sane, the stack is in order but for its top, which `x` excuses, and names stand
for fibers. -/
structure InOrder (es : List Event) (c : Control Task) (x : Task → Prop) (table : Table FiberId) :
    Prop where
  sane : ∀ f, Sane es c f
  stack : Below c x c.stack
  named : ∀ e ∈ table.entries, e.2 < c.fibers.size

/-- Tasks may be put on top. -/
abbrev Ready (es : List Event) (c : Control Task) (table : Table FiberId) : Prop :=
  InOrder es c (fun _ => False) table

namespace Ready

variable (h : Ready es c table)

include h

theorem done (ho : Over c f) (hr : f ∉ running c.stack) : Done c f :=
  ⟨ho, hr, fun _ => Strict.holds_eq_zero h.stack hr⟩

theorem lt_size {name : String} (hf : table.find? name = some f) : f < c.fibers.size := by
  obtain ⟨l₁, l₂, heq, -⟩ := List.lookup_eq_some_iff.mp hf
  exact h.named (name, f) (heq ▸ List.mem_append_right _ List.mem_cons_self)

end Ready

theorem phase_of_isActive (h : (c.fiberD f).isActive = true) : (c.fiberD f).phase = .active := by
  unfold Fiber.isActive at h
  split at h
  · assumption
  · cases h

theorem lt_size_of_phase (h : (c.fiberD f).phase.isOver = false) : f < c.fibers.size := by
  by_contra hn
  rw [Control.fiberD, Array.getElem?_eq_none (Nat.not_lt.mp hn)] at h
  cases h

theorem kept_of_isOver {p : Phase Task} (h : p.isOver = true) : kept f m p = 0 := by
  cases p <;> first | rfl | cases h

theorem Below.lt_size (h : Below c x l) (hf : f ∈ running l) : f < c.fibers.size := by
  obtain ⟨forced, hb⟩ := mem_running.mp hf
  cases forced with
  | true => exact (h.spent hb).1
  | false => exact lt_size_of_phase (by rw [phase_of_isActive (h.isActive hb)]; rfl)

theorem InOrder.work {y : Task → Prop} (h : InOrder es c x table) (hf : c'.fibers = c.fibers)
    (hl : c'.lost = c.lost) (hb : bases c'.stack = bases c.stack)
    (hv : ∀ g m, holds g m c.stack + z.count (.made g m) =
      z.count (.dropped g m) + holds g m c'.stack)
    (hev : ∀ e ∈ z, (∃ g m, e = .made g m ∧ g ∈ running c.stack) ∨
      ∃ g m, e = .dropped g m ∧ g < c.fibers.size)
    (hy : Below c y c'.stack) : InOrder (z ++ es) c' y table where
  sane g := by
    have hd : c'.fiberD g = c.fiberD g := by rw [Control.fiberD, hf, Control.fiberD]
    have hk : Kept z c c' g := {
      same := hd ▸ .refl _
      size := by rw [hf]
      bases := by simp [hb]
      values := hv g
      forgone := fun m => by rw [forgone, forgone, hl]
      turns := fun e he _ => by
        rcases hev e he with ⟨_, _, rfl, -⟩ | ⟨_, _, rfl, -⟩ <;> rfl
      born := fun e he heq => by
        rcases hev e he with ⟨_, _, rfl, hr⟩ | ⟨_, _, rfl, hs⟩
        · exact heq ▸ h.stack.lt_size hr
        · exact heq ▸ hs
      made := fun m he => by
        rcases hev _ he with ⟨_, _, heq, hr⟩ | ⟨_, _, heq, -⟩
        · cases heq
          exact hr
        · cases heq
      abandoned := fun he => by
        rcases hev _ he with ⟨_, _, heq, -⟩ | ⟨_, _, heq, -⟩ <;> cases heq }
    exact hk.sane (h.sane g)
  stack := by
    have hd : ∀ g, c'.fiberD g = c.fiberD g := fun g => by rw [Control.fiberD, hf, Control.fiberD]
    refine hy.mono (fun g ho => ⟨hf ▸ ho.1, hd g ▸ ho.2⟩) fun g _ ha => hd g ▸ ha
  named := hf ▸ h.named

theorem Ready.push {y : Task → Prop} (h : Ready es c table)
    (hy : Below c y (q.map .task ++ c.stack)) (hh : ∀ f m, holds f m (q.map .task) = 0) :
    InOrder es (c.push q) y table :=
  h.work (z := []) rfl rfl (by simp [Control.push]) (by simp [Control.push, hh]) (by simp) hy

theorem InOrder.alike (h : InOrder es c x table) (hst : c'.stack = c.stack) (hl : c'.lost = c.lost)
    (hs : c'.fibers.size = c.fibers.size) (hf : ∀ g, Same (c.fiberD g) (c'.fiberD g)) :
    InOrder es c' x table where
  sane g := by
    have hk : Kept [] c c' g := ⟨hf g, by rw [hs], by simp [hst], by simp [hst],
      by simp [forgone, hl], by simp, by simp, by simp, by simp⟩
    exact hk.sane (h.sane g)
  stack := hst ▸ h.stack.mono (fun g ho => ⟨hs ▸ ho.1, (hf g).phase ▸ ho.2⟩) fun g _ ha => by
    simpa [Fiber.isActive, (hf g).phase] using ha
  named := hs ▸ h.named

theorem Only.elsewhere (h : Only f c c') (hl : c'.lost = c.lost)
    (hb : ∀ g, g ≠ f → ∀ b, (g, b) ∈ bases c'.stack ↔ (g, b) ∈ bases c.stack)
    (hh : ∀ g, g ≠ f → ∀ m, holds g m c'.stack = holds g m c.stack) : Elsewhere f c c' :=
  ⟨h.size, h.same, hb, hh, fun _ _ _ => by rw [forgone, forgone, hl]⟩

theorem Elsewhere.sane (he : Elsewhere f c c') (hs : ∀ g, Sane es c g)
    (hev : ∀ e ∈ z, e.fiber = f) (hf : Sane (z ++ es) c' f) (g : FiberId) :
    Sane (z ++ es) c' g := by
  by_cases hg : g = f
  · exact hg ▸ hf
  · exact (he.kept hg hev).sane (hs g)

theorem Ready.mount {inside : Bool} {name : String} (h : Ready es c table) (ho : Only f c c')
    (hr : f ∉ running c.stack) (hov : ¬Over c f) (hseg : Segment f k)
    (hkept : ∀ m, holds f m k = kept f m (c.fiberD f).phase)
    (hstack : c'.stack = k ++ .base f false :: .task (.dropHandle f) ::
      .task (.status inside name f) :: c.stack) (hlost : c'.lost = c.lost)
    (hp : (c'.fiberD f).phase = .active) (ha : (c'.fiberD f).armed = true)
    (hfin : (c'.fiberD f).finished = (c.fiberD f).finished)
    (hcan : (c'.fiberD f).cancelling = (c.fiberD f).cancelling)
    (he : e.fiber = f) (ht : e.isTurn = true) (hc : course f (e :: es) = laps f n) :
    Ready (e :: es) c' table := by
  have hzero : ∀ m, holds f m c.stack = 0 := fun m => Strict.holds_eq_zero h.stack hr
  refine ⟨?_, ?_, ho.size ▸ h.named⟩
  · refine Elsewhere.sane (z := [e]) (ho.elsewhere hlost ?_ ?_) h.sane (by simp [he]) ?_
    · rintro g hg b
      simp [hstack, hseg.bases, hg]
    · rintro g hg m
      simp [hstack, hseg.holds_eq_zero hg, Task.holds]
    · refine (h.sane f).move (z := [e]) hov (.active hp (by simp [hstack]) ha hc) (by simp [ht])
        (fun m => ?_) hlost hfin (.inl hcan)
      simp [held, hstack, hzero, hkept, hp, kept, Task.holds]
  · rw [hstack]
    refine hseg.strict ⟨by simp [Fiber.isActive, hp], by simpa using hr, ?_⟩
    exact ⟨.inr ⟨rfl, rfl⟩, .inl trivial, ho.below (fun ho => absurd ho hov) h.stack hr⟩

theorem Ready.suspend (h : Ready es c table) (ho : Only f c c')
    (hst : c.stack = k ++ .base f false :: low) (hb : bases k = []) (hres : Resident c.stack)
    (hlow : c'.stack = low) (hlost : c'.lost = c.lost)
    (hp : (c'.fiberD f).phase = .parked k) (ha : (c'.fiberD f).armed = (c.fiberD f).armed)
    (hfin : (c'.fiberD f).finished = (c.fiberD f).finished)
    (hcan : (c'.fiberD f).cancelling = (c.fiberD f).cancelling) :
    InOrder ([.suspended f] ++ es) c' (Loose c') table := by
  obtain ⟨hseg, hact, hr, hbelow⟩ := Strict.segment (hst ▸ h.stack) hb (hst ▸ hres)
  replace hact : (c.fiberD f).isActive = true := hact
  have hzero : ∀ m, holds f m low = 0 := fun m => by
    refine Below.holds_eq_zero hbelow hr ?_
    rintro t rest - ⟨-, rfl⟩
    rfl
  have hphase := phase_of_isActive hact
  have hov : ¬Over c f := fun ho => by simp [Over, hphase, Phase.isOver] at ho
  have hsize : f < c.fibers.size := lt_size_of_phase (by rw [hphase]; rfl)
  refine ⟨?_, ?_, ho.size ▸ h.named⟩
  · refine Elsewhere.sane (z := [.suspended f]) (ho.elsewhere hlost ?_ ?_) h.sane
      (by simp [Event.fiber]) ?_
    · rintro g hg b
      simp [hst, hlow, hb, hg]
    · rintro g hg m
      simp [hst, hlow, hseg.holds_eq_zero hg]
    · cases (h.sane f).stage with
      | @active n _ _ hn hc =>
        have hc' : course f ([.suspended f] ++ es) = laps f n ++ [.suspended f] := by
          rw [course_append, hc]
          simp [course, Event.isTurn, Event.fiber]
        refine (h.sane f).move hov (.parked hp hseg (hlow ▸ hr) (ha.trans hn) hc')
          (by simp [Event.isTurn]) (fun m => ?_) hlost hfin (.inl hcan)
        simp [held, hst, hlow, hzero, hphase, hp, kept]
      | unborn hf => exact absurd hsize (Nat.not_lt.mpr hf)
      | fresh hp => cases hphase.symm.trans hp
      | parked hp => cases hphase.symm.trans hp
      | unwinding ho => exact absurd ho hov
      | spent ho => exact absurd ho hov
  · rw [hlow]
    refine (ho.below (fun ho => absurd ho hov) hbelow hr).imp ?_
    rintro t ⟨-, rfl⟩
    exact .inl ⟨f, rfl, ho.size ▸ hsize, hlow ▸ hr⟩

theorem InOrder.land (h : InOrder es c x table) (ho : Only f c c') {forced : Bool}
    (hst : c.stack = .base f forced :: low) (hlow : c'.stack = low) (hlost : c'.lost = c.lost)
    (hp : (c'.fiberD f).phase.isOver = true) (ha : (c'.fiberD f).armed = false) :
    Ready es c' table := by
  obtain ⟨hbase, hr, hbelow⟩ : (if forced then Over c f else (c.fiberD f).isActive = true) ∧
      f ∉ running low ∧ Below c (fun t => forced = false ∧ t = .dropHandle f) low := by
    have := h.stack
    rwa [hst] at this
  have hkept : ∀ m, kept f m (c.fiberD f).phase = 0 := fun m => by
    cases forced with
    | true => exact kept_of_isOver hbase.2
    | false => rw [phase_of_isActive hbase]; rfl
  have hzero : ∀ m, holds f m low = 0 := fun m => by
    refine Below.holds_eq_zero hbelow hr ?_
    rintro t rest - ⟨-, rfl⟩
    rfl
  have hsize : f < c.fibers.size := h.stack.lt_size (by simp [hst])
  have hov : Over c' f := ⟨ho.size ▸ hsize, hp⟩
  have hcourse : ∃ n, course f es <+: laps f n := by
    cases (h.sane f).stage with
    | @active n _ _ _ hc => exact ⟨n, hc ▸ List.prefix_rfl⟩
    | unwinding _ _ _ hc => exact ⟨_, hc⟩
    | spent _ _ hc => exact ⟨_, hc⟩
    | unborn hf => exact absurd hsize (Nat.not_lt.mpr hf)
    | fresh _ hr => exact absurd (by simp [hst]) hr
    | parked _ _ hr => exact absurd (by simp [hst]) hr
  obtain ⟨n, hn⟩ := hcourse
  refine ⟨?_, ?_, ho.size ▸ h.named⟩
  · refine Elsewhere.sane (z := []) (ho.elsewhere hlost ?_ ?_) h.sane (by simp) ?_
    · rintro g hg b
      simp [hst, hlow, hg]
    · rintro g - m
      simp [hst, hlow]
    · refine (h.sane f).rest ⟨hov, hlow ▸ hr, hlow ▸ hzero⟩ hn (fun m => ?_)
        (fun m => by rw [forgone, forgone, hlost]) fun _ => ha
      simp [held, hst, hlow, hkept, kept_of_isOver hp]
  · rw [hlow]
    refine (ho.below (fun _ => hov) hbelow hr).strict ?_
    rintro t rest rfl ⟨-, rfl⟩
    exact ⟨hov, hr⟩

theorem holds_drops_of_ne {mark : Option String} (hg : g ≠ f) :
    holds g m ((drops f mark).map .task) = 0 := by
  cases mark <;> simp [drops, Task.holds, hg.symm]

section

variable (h : Ready es c table) (ho : Only f c c') (hr : f ∉ running c.stack)

include h ho hr

theorem Ready.discard {entry discard : List Task} (hp : (c.fiberD f).phase = .fresh entry discard)
    (hstack : c'.stack = discard.map .task ++ (q.map .task ++ c.stack)) (hlost : c'.lost = c.lost)
    (hts : Strict c' (q.map .task ++ c.stack)) (hh : ∀ f m, holds f m (q.map .task) = 0)
    (hp' : (c'.fiberD f).phase = .taken)
    (hfin : (c'.fiberD f).finished = (c.fiberD f).finished) :
    InOrder es c' (Loose c') table := by
  have hov : ¬Over c f := fun ho => by simp [Over, hp, Phase.isOver] at ho
  have hsize : f < c.fibers.size := lt_size_of_phase (by rw [hp]; rfl)
  have hov' : Over c' f := ⟨ho.size ▸ hsize, by rw [hp']; rfl⟩
  have hzero : ∀ m, holds f m c.stack = 0 := fun m => Strict.holds_eq_zero h.stack hr
  obtain ⟨mark, rfl, hc⟩ : ∃ mark, discard = drops f mark ∧ course f es = [] := by
    cases (h.sane f).stage with
    | @fresh steps mark hp₁ _ hc =>
      cases hp.symm.trans hp₁
      exact ⟨mark, rfl, hc⟩
    | unborn hf => exact absurd hsize (Nat.not_lt.mpr hf)
    | active hp₁ => cases hp.symm.trans hp₁
    | parked hp₁ => cases hp.symm.trans hp₁
    | unwinding ho => exact absurd ho hov
    | spent ho => exact absurd ho hov
  have hheld : ∀ g m, holds g m c'.stack = holds g m ((drops f mark).map .task) +
      holds g m c.stack := fun g m => by rw [hstack, holds_append, holds_append, hh, Nat.zero_add]
  refine ⟨?_, ?_, ho.size ▸ h.named⟩
  · refine Elsewhere.sane (z := []) (ho.elsewhere hlost ?_ ?_) h.sane (by simp) ?_
    · rintro g - b
      simp [hstack]
    · rintro g hg m
      rw [hheld, holds_drops_of_ne hg, Nat.zero_add]
    · have hstage : Stage es c' f := .spent hov' (by simpa [hstack] using hr) (n := 0) (by simp [hc])
      refine (h.sane f).move (z := []) hov hstage (by simp) (fun m => ?_) hlost hfin (.inr hov')
      simp [held, hheld, hzero, hp, hp', kept]
  · rw [hstack]
    cases mark with
    | none => exact hts.loosen
    | some m => exact ⟨.inr (.inr ⟨f, m, rfl, hov'⟩), hts⟩

theorem Ready.unwind (hp : (c.fiberD f).phase = .parked k)
    (hstack : c'.stack = .task (.fail .cancel) ::
      (k ++ .base f true :: (q.map .task ++ c.stack))) (hlost : c'.lost = c.lost)
    (hts : Strict c' (q.map .task ++ c.stack)) (hh : ∀ f m, holds f m (q.map .task) = 0)
    (hp' : (c'.fiberD f).phase = .taken)
    (hfin : (c'.fiberD f).finished = (c.fiberD f).finished)
    (hcan : (c'.fiberD f).cancelling = true) :
    Ready es c' table := by
  have hov : ¬Over c f := fun ho => by simp [Over, hp, Phase.isOver] at ho
  have hsize : f < c.fibers.size := lt_size_of_phase (by rw [hp]; rfl)
  have hov' : Over c' f := ⟨ho.size ▸ hsize, by rw [hp']; rfl⟩
  have hzero : ∀ m, holds f m c.stack = 0 := fun m => Strict.holds_eq_zero h.stack hr
  obtain ⟨n, hseg, hc⟩ : ∃ n, Segment f k ∧ course f es = laps f n ++ [.suspended f] := by
    cases (h.sane f).stage with
    | @parked _ n hp₁ hseg _ _ hc =>
      cases hp.symm.trans hp₁
      exact ⟨n, hseg, hc⟩
    | unborn hf => exact absurd hsize (Nat.not_lt.mpr hf)
    | active hp₁ => cases hp.symm.trans hp₁
    | fresh hp₁ => cases hp.symm.trans hp₁
    | unwinding ho => exact absurd ho hov
    | spent ho => exact absurd ho hov
  have hheld : ∀ g m, holds g m c'.stack = holds g m k + holds g m c.stack := fun g m => by
    rw [hstack, holds_task, holds_append, holds_base, holds_append, hh, Nat.zero_add]
    exact Nat.zero_add _
  refine ⟨?_, ?_, ho.size ▸ h.named⟩
  · refine Elsewhere.sane (z := []) (ho.elsewhere hlost ?_ ?_) h.sane (by simp) ?_
    · rintro g hg b
      simp [hstack, hseg.bases, hg]
    · rintro g hg m
      rw [hheld, hseg.holds_eq_zero hg, Nat.zero_add]
    · have hlap : course f es <+: laps f (n + 1) := by
        rw [hc, laps_succ]
        exact (List.prefix_append_right_inj _).mpr ⟨[.returned f], rfl⟩
      have hstage : Stage es c' f := .unwinding hov' (by simp [hstack]) hcan hlap
      refine (h.sane f).move (z := []) hov hstage (by simp) (fun m => ?_) hlost hfin (.inr hov')
      simp [held, hheld, hzero, hp, hp', kept]
  · rw [hstack]
    exact ⟨.inl trivial, hseg.strict ⟨hov', by simpa using hr, hts.loosen⟩⟩

theorem Ready.take (hov : Over c f) (hst : c'.stack = c.stack) (hlost : c'.lost = c.lost)
    (hp : (c'.fiberD f).phase.isOver = true)
    (ha : (c'.fiberD f).finished = true → (c'.fiberD f).armed = false) : Ready es c' table := by
  have hov' : Over c' f := ⟨ho.size ▸ hov.1, hp⟩
  obtain ⟨n, hn⟩ := (h.sane f).course_laps hov
  refine ⟨?_, hst ▸ ho.below (fun _ => hov') h.stack hr, ho.size ▸ h.named⟩
  refine Elsewhere.sane (z := []) (ho.elsewhere hlost ?_ ?_) h.sane (by simp) ?_
  · simp [hst]
  · simp [hst]
  · have hd := h.done hov hr
    refine (h.sane f).rest ⟨hov', hst ▸ hr, hst ▸ hd.bare⟩ hn (fun m => ?_)
      (fun m => by rw [forgone, forgone, hlost]) ha
    rw [held, held, hst, kept_of_isOver hp, kept_of_isOver hov.2]

theorem Ready.abandon (hov : ¬Over c f) (hs : f < c.fibers.size) (hst : c'.stack = c.stack)
    (hlost : c'.lost = k :: c.lost) (hkept : ∀ m, holds f m k = kept f m (c.fiberD f).phase)
    (helse : ∀ g, g ≠ f → ∀ m, holds g m k = 0) (hp : (c'.fiberD f).phase = .taken)
    (ha : (c'.fiberD f).armed = false) : Ready ([.abandoned f] ++ es) c' table := by
  have hov' : Over c' f := ⟨ho.size ▸ hs, by rw [hp]; rfl⟩
  have hstrict : Strict c' c'.stack := hst ▸ ho.below (fun _ => hov') h.stack hr
  have hzero : ∀ m, holds f m c.stack = 0 := fun m => Strict.holds_eq_zero h.stack hr
  have hdone : Done c' f := ⟨hov', hst ▸ hr, hst ▸ hzero⟩
  obtain ⟨n, hn⟩ : ∃ n, course f es <+: laps f n := by
    cases (h.sane f).stage with
    | unborn hf => exact absurd hs (Nat.not_lt.mpr hf)
    | fresh _ _ hc => exact ⟨0, by simp [hc]⟩
    | active _ hb => exact absurd (mem_running.mpr ⟨_, hb⟩) hr
    | @parked _ n _ _ _ _ hc =>
      refine ⟨n + 1, ?_⟩
      rw [hc, laps_succ]
      exact (List.prefix_append_right_inj _).mpr ⟨[.returned f], rfl⟩
    | unwinding ho => exact absurd ho hov
    | spent ho => exact absurd ho hov
  have hcourse : course f ([.abandoned f] ++ es) = course f es := by
    rw [course_append]
    simp [course, Event.isTurn]
  refine ⟨?_, hstrict, ho.size ▸ h.named⟩
  refine Elsewhere.sane ⟨ho.size, ho.same, by simp [hst], by simp [hst], ?_⟩ h.sane
    (by simp [Event.fiber]) ?_
  · rintro g hg m
    simp [forgone, hlost, helse g hg]
  · have hl₀ := ((h.sane f).untouched hov).2.2.2
    refine (h.sane f).advance hov (.spent hov' hdone.idle (n := n) (hcourse ▸ hn)) (fun m => ?_)
      (by simp) (fun _ => hdone) (fun _ => ⟨hdone, ha⟩) fun _ => hov'
    have hm := hl₀ m
    simp only [forgone] at hm
    simp [held, forgone, hst, hlost, hzero, hkept, hp, kept, hm]

end

theorem fiberD_create (entry discard : List Task) (g : FiberId) :
    (c.create entry discard).2.fiberD g =
      if g = c.fibers.size then { phase := .fresh entry discard } else c.fiberD g := by
  simp only [Control.create, Control.fiberD, Array.getElem?_push]
  split <;> rfl

theorem Ready.create {steps : List Step} {mark : Option String} (h : Ready es c table)
    (hsize : c'.fibers.size = c.fibers.size + 1) (hst : c'.stack = c.stack)
    (hlost : c'.lost = c.lost)
    (hfib : ∀ g, c'.fiberD g = if g = c.fibers.size then
      { phase := .fresh (opening c.fibers.size steps mark) (drops c.fibers.size mark) }
      else c.fiberD g) :
    Ready ((mark.map (Event.made c.fibers.size)).toList ++ es) c' table := by
  have hover : ∀ g, Over c g → Over c' g := fun g ho => by
    refine ⟨hsize ▸ Nat.lt_succ_of_lt ho.1, ?_⟩
    rw [hfib, if_neg (Nat.ne_of_lt ho.1)]
    exact ho.2
  refine ⟨fun g => ?_, ?_, fun e he => hsize ▸ Nat.lt_succ_of_lt (h.named e he)⟩
  · by_cases hg : g = c.fibers.size
    · subst hg
      have hov : ¬Over c c.fibers.size := fun ho => absurd ho.1 (Nat.lt_irrefl _)
      have hnr : c.fibers.size ∉ running c.stack := fun hr =>
        absurd (h.stack.lt_size hr) (Nat.lt_irrefl _)
      have hzero : ∀ m, holds c.fibers.size m c.stack = 0 := fun m =>
        Strict.holds_eq_zero h.stack hnr
      have hf := (hfib c.fibers.size).trans (if_pos rfl)
      have hcourse : course c.fibers.size es = [] := by
        cases (h.sane c.fibers.size).stage with
        | unborn _ he => exact course_eq_nil fun e hm heq => absurd heq (he e hm)
        | fresh _ _ hc => exact hc
        | active _ hb => exact absurd (mem_running.mpr ⟨_, hb⟩) hnr
        | parked hp =>
          exact absurd (lt_size_of_phase (by rw [hp]; rfl)) (Nat.lt_irrefl _)
        | unwinding ho => exact absurd ho hov
        | spent ho => exact absurd ho hov
      have hl₀ := ((h.sane c.fibers.size).untouched hov).2.2.2
      have hl' : ∀ m, forgone c' c.fibers.size m = 0 := fun m => by
        rw [← hl₀ m, forgone, forgone, hlost]
      have hold : (c.fiberD c.fibers.size).phase = .taken := by simp [Control.fiberD]
      refine (h.sane c.fibers.size).advance hov (.fresh (by rw [hf]) (hst ▸ hnr) ?_) ?_ ?_ ?_ ?_ ?_
      · rw [course_append, hcourse]
        cases mark <;> rfl
      · rintro m
        rw [held, held, hf, hold, hl', hst, hzero]
        cases mark <;> simp [kept, drops, Task.holds, List.count_cons]
      · exact fun m hm => absurd (hl' m) hm
      · rintro hm
        cases mark <;> simp at hm
      · simp [hf]
      · simp [hf]
    · have hk : Kept (mark.map (Event.made c.fibers.size)).toList c c' g := {
        same := by rw [hfib, if_neg hg]; exact .refl _
        size := by
          rw [hsize]
          exact ⟨fun hl => Nat.lt_of_le_of_ne (Nat.le_of_lt_succ hl) hg, Nat.lt_succ_of_lt⟩
        bases := by simp [hst]
        values := fun m => by
          rw [hst]
          cases mark <;> simp [Ne.symm hg]
        forgone := fun m => by rw [forgone, forgone, hlost]
        turns := by cases mark <;> simp [Event.isTurn]
        born := by cases mark <;> simp [Event.fiber, Ne.symm hg]
        made := by cases mark <;> simp [hg]
        abandoned := by cases mark <;> simp }
      exact hk.sane (h.sane g)
  · rw [hst]
    refine h.stack.mono hover fun g hg ha => ?_
    rw [hfib, if_neg (Nat.ne_of_lt (h.stack.lt_size hg))]
    exact ha

end Switchyard.Fiber.Session
