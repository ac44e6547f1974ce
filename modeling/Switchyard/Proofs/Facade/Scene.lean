import Switchyard.Proofs.Facade.Later
import Switchyard.Proofs.Facade.Mode

/-!
# Scenes

A scene is what a hub shows together with its greenlets, its fibers and the place where its thread
stands. The flags of the hub, the run states of the greenlets and the phases of the fibers agree
with that place. One condition accounts for panics: `A` says that one has broken off something that
a hub relies on.
-/

namespace Switchyard

/-- The parts of a hub that decide about switches. -/
structure Core where
  thread : ThreadId
  main : Ref
  current : Ref
  runningFiber : Bool
  releasing : Bool
  driving : Bool
  outgoing : Option Outgoing
  closed : Bool

def Hub.core (s : Hub) : Core :=
  ⟨s.thread, s.main, s.current, s.runningFiber, s.releasing, s.driving, s.outgoing, s.closed⟩

/-- What the topmost task of a thread is about to do to its hub. -/
inductive Edge where
  | plain
  /-- `t` becomes the current greenlet, perhaps for the first time. -/
  | entering (t : Ref)
  | closing (h : HubId)
  deriving DecidableEq

def Item.edge : List (Item Task) → Edge
  | .task (.driveRegister _ t _) :: _ => .entering t
  | .task (.teardown h) :: _ => .closing h
  | _ => .plain

structure Scene where
  core : Core
  greenlet? : Ref → Option Greenlet
  fiberD : FiberId → Fiber Task
  mode : Mode
  edge : Edge

def World.living? (w : World) (r : Ref) : Option Greenlet :=
  (w.object? r).bind fun o => if 0 < o.count then o.value.greenlet? else none

theorem World.living?_eq_some_iff {w : World} {r : Ref} {g : Greenlet} :
    w.living? r = some g ↔ ∃ n, 0 < n ∧ w.object? r = some ⟨n, .greenlet g⟩ := by
  unfold living?
  rw [Option.bind_eq_some_iff]
  constructor
  · rintro ⟨⟨n, v⟩, ho, hg⟩
    split at hg
    · obtain rfl : v = .greenlet g := Value.greenlet?_eq_some_iff.mp hg
      exact ⟨n, ‹_›, ho⟩
    · cases hg
  · rintro ⟨n, hn, ho⟩
    exact ⟨_, ho, by rw [if_pos hn]; rfl⟩

theorem World.greenlet?_of_living {w : World} {r : Ref} {g : Greenlet}
    (h : w.living? r = some g) : w.greenlet? r = some g := by
  obtain ⟨n, -, ho⟩ := living?_eq_some_iff.mp h
  exact greenlet?_eq_some_iff.mpr ⟨n, ho⟩

def World.scene (w : World) (h : HubId) (m : Mode) (e : Edge) : Scene :=
  ⟨(w.hub h).core, w.living?, w.fiberD, m, e⟩

/-- The fiber `f` of the greenlet `r` is where the original stack says that it is. -/
def Ground.Places (A : Prop) (g : Ground) (r : Ref) (f : FiberId) (s : Fiber Task) : Prop :=
  s.cancelling = false ∧
    match s.phase with
    | .fresh .. =>
      s.finished = false ∧ g.holds ≠ some (r, f) ∧ (A ∨ g = .ready r f ∨ g = .starting r f)
    | .parked st =>
      s.armed = true ∧ s.finished = false ∧ (∀ x, g ≠ .on r f x) ∧
        Spot.walk (Spot.step f) st = some .resumed
    | .active => s.armed = true ∧ s.finished = false ∧ ∃ x, g = .on r f x
    | .ended => s.finished = true ∧ g = .back r f
    | .taken => False

/-- The greenlet `r` has a payload to read when its fiber `f` goes on. -/
def Scene.Awaits (s : Scene) (r : Ref) (f : FiberId) : Prop :=
  s.mode.ground = .on r f .resumed ∨
    (s.mode.ground = .ready r f ∨ s.mode.ground = .starting r f) ∧
      ∃ st, (s.fiberD f).phase = .parked st

structure Scene.Suits (A : Prop) (s : Scene) (r : Ref) (g : Greenlet) : Prop where
  main : g.isMain = true ↔ r = s.core.main
  stackless : g.isMain = true →
    g.run = none ∧ g.fiber = none ∧ (g.state = .running ∨ g.state = .suspended)
  current : r = s.core.current → g.state = .running ∨ g.state = .dead
  running : g.state = .running → r = s.core.current
  dead : g.state = .dead → g.run = none ∧ g.fiber = none
  run : g.run ≠ none → g.state = .unstarted ∧ g.fiber = none
  bare : g.isMain = false → g.fiber = none → g.state = .unstarted ∨ g.state = .dead
  entering : g.state = .unstarted → g.run = none → s.edge = .entering r
  turn : ∀ f, s.mode.ground.turn? = some (r, f) → g.fiber = some ⟨s.core.thread, f⟩ ∧
    (s.mode.ground.isSeated = true → g.state = .running)
  fiber : ∀ p, g.fiber = some p → p.owner = s.core.thread ∧
    s.mode.ground.Places A r p.value (s.fiberD p.value)
  victim : s.mode.unwinding.victim? = some r → g.state = .dead
  inbox : g.inbox ≠ none → A ∨ ∃ f, s.Awaits r f
  filled : ∀ f, s.Awaits r f → g.inbox ≠ none
  posted : ∀ f, s.mode.ground = .on r f .suspended ∨
    s.mode.ground = .back r f ∧ (s.fiberD f).finished = false →
      ∃ u p, s.core.outgoing = some (.switch u p)

structure Scene.Fine (A : Prop) (h : HubId) (s : Scene) : Prop where
  running : s.core.runningFiber = s.mode.ground.isRunning
  driving : s.core.driving = s.mode.ground.isDriving
  releasing : s.mode.unwinding ≠ .none → s.core.releasing = true
  released : s.core.releasing = true → A ∨ s.mode.unwinding ≠ .none
  outgoing : s.mode.ground.isPosting = false → s.core.outgoing = none
  home : s.mode.ground.isHome = true → A ∨ s.core.current = s.core.main
  seated : ∀ t f, s.mode.ground.isSeated = true → s.mode.ground.turn? = some (t, f) →
    s.core.current = t
  off : ∀ r f x, s.mode.unwinding = .off r f x →
    (s.fiberD f).isTaken = true ∧ (s.fiberD f).cancelling = true ∧ x ≠ .resumed
  suits : ∀ r g, s.greenlet? r = some g → g.hub = h → s.Suits A r g

namespace Scene

variable {A A' : Prop} {h : HubId} {s s' : Scene}

theorem Suits.mono {r : Ref} {g : Greenlet} (hs : s.Suits A r g) (ha : A → A') :
    s.Suits A' r g where
  main := hs.main
  stackless := hs.stackless
  current := hs.current
  running := hs.running
  dead := hs.dead
  run := hs.run
  bare := hs.bare
  entering := hs.entering
  turn := hs.turn
  fiber p hp := by
    obtain ⟨ho, hc, hph⟩ := hs.fiber p hp
    refine ⟨ho, hc, ?_⟩
    cases hx : (s.fiberD p.value).phase with
    | fresh entry discard =>
      simp only [hx] at hph ⊢
      exact ⟨hph.1, hph.2.1, hph.2.2.imp ha id⟩
    | taken => simp only [hx] at hph
    | _ => simpa only [hx] using hph
  victim := hs.victim
  inbox hi := (hs.inbox hi).imp ha id
  filled := hs.filled
  posted := hs.posted

theorem Fine.mono (hf : s.Fine A h) (ha : A → A') : s.Fine A' h where
  running := hf.running
  driving := hf.driving
  releasing := hf.releasing
  released hr := (hf.released hr).imp ha id
  outgoing := hf.outgoing
  home hh := (hf.home hh).imp ha id
  seated := hf.seated
  off := hf.off
  suits r g hg hh := (hf.suits r g hg hh).mono ha

end Scene

structure Greenlet.Alike (g g' : Greenlet) : Prop where
  hub : g'.hub = g.hub
  isMain : g'.isMain = g.isMain
  state : g'.state = g.state
  run : g'.run = g.run
  fiber : g'.fiber = g.fiber
  inbox : g'.inbox = g.inbox

theorem Greenlet.Alike.refl (g : Greenlet) : g.Alike g := ⟨rfl, rfl, rfl, rfl, rfl, rfl⟩

theorem Greenlet.Alike.trans {g g' g'' : Greenlet} (h : g.Alike g') (h' : g'.Alike g'') :
    g.Alike g'' :=
  ⟨h'.hub.trans h.hub, h'.isMain.trans h.isMain, h'.state.trans h.state, h'.run.trans h.run,
    h'.fiber.trans h.fiber, h'.inbox.trans h.inbox⟩

/-- Handles apart, the fiber is the same. -/
structure Fiber.Alike (s s' : Fiber Task) : Prop where
  phase : s'.phase = s.phase
  armed : s'.armed = s.armed
  cancelling : s'.cancelling = s.cancelling
  started : s'.started = s.started
  finished : s'.finished = s.finished

theorem Fiber.Alike.refl (s : Fiber Task) : s.Alike s := ⟨rfl, rfl, rfl, rfl, rfl⟩

theorem Fiber.Alike.trans {s s' s'' : Fiber Task} (h : s.Alike s') (h' : s'.Alike s'') :
    s.Alike s'' :=
  ⟨h'.phase.trans h.phase, h'.armed.trans h.armed, h'.cancelling.trans h.cancelling,
    h'.started.trans h.started, h'.finished.trans h.finished⟩

theorem Ground.Places.alike {A : Prop} {g : Ground} {r : Ref} {f : FiberId} {s s' : Fiber Task}
    (h : g.Places A r f s) (hs : s.Alike s') : g.Places A r f s' := by
  unfold Ground.Places at *
  rw [hs.phase, hs.armed, hs.cancelling, hs.finished]
  exact h

theorem Ground.places_on {A : Prop} {r : Ref} {f : FiberId} {x : Spot} {s : Fiber Task} :
    (Ground.on r f x).Places A r f s ↔
      s.cancelling = false ∧ s.phase = .active ∧ s.armed = true ∧ s.finished = false := by
  unfold Ground.Places
  cases s.phase <;> simp [Ground.holds]

namespace Scene

variable {A : Prop} {h : HubId} {s s' : Scene}

theorem awaits_congr {r : Ref} (hm : s'.mode.ground = s.mode.ground)
    (hp : ∀ f, s.mode.ground.turn? = some (r, f) → (s'.fiberD f).phase = (s.fiberD f).phase)
    (f : FiberId) : s'.Awaits r f ↔ s.Awaits r f := by
  unfold Awaits
  rw [hm]
  refine or_congr_right (and_congr_right fun hx => ?_)
  rw [hp f (by rcases hx with hx | hx <;> simp [hx, Ground.turn?])]

theorem Awaits.turn {r : Ref} {f : FiberId} (h : s.Awaits r f) :
    s.mode.ground.turn? = some (r, f) := by
  rcases h with h | ⟨h | h, -⟩ <;> simp [h, Ground.turn?]

theorem Fine.alike (hf : s.Fine A h) (hc : s'.core = s.core) (hm : s'.mode = s.mode)
    (he : s.edge = .plain ∨ s'.edge = s.edge)
    (hg : ∀ r g', s'.greenlet? r = some g' → g'.hub = h → ∃ g, s.greenlet? r = some g ∧ g.Alike g')
    (hp : ∀ r g' p, s'.greenlet? r = some g' → g'.hub = h → g'.fiber = some p →
      (s.fiberD p.value).Alike (s'.fiberD p.value))
    (ho : ∀ f, (s.fiberD f).isTaken = true ∧ (s.fiberD f).cancelling = true →
      (s'.fiberD f).isTaken = true ∧ (s'.fiberD f).cancelling = true) : s'.Fine A h where
  running := by rw [hc, hm]; exact hf.running
  driving := by rw [hc, hm]; exact hf.driving
  releasing := by rw [hc, hm]; exact hf.releasing
  released := by rw [hc, hm]; exact hf.released
  outgoing := by rw [hc, hm]; exact hf.outgoing
  home := by rw [hc, hm]; exact hf.home
  seated := by rw [hc, hm]; exact hf.seated
  off r f x hx := by
    rw [hm] at hx
    obtain ⟨h₁, h₂, h₃⟩ := hf.off r f x hx
    exact ⟨(ho f ⟨h₁, h₂⟩).1, (ho f ⟨h₁, h₂⟩).2, h₃⟩
  suits r g' hg' hh := by
    obtain ⟨g, hgr, ha⟩ := hg r g' hg' hh
    have hs := hf.suits r g hgr (ha.hub.symm.trans hh)
    have ht (f : FiberId) (hf : s.mode.ground.turn? = some (r, f)) :
        (s.fiberD f).Alike (s'.fiberD f) :=
      hp r g' ⟨s.core.thread, f⟩ hg' hh (ha.fiber.trans (hs.turn f hf).1)
    have hw := awaits_congr (r := r) (by rw [hm]) fun f hf => (ht f hf).phase
    constructor
    · rw [hc, ha.isMain]; exact hs.main
    · rw [ha.isMain, ha.state, ha.fiber, ha.run]; exact hs.stackless
    · rw [hc, ha.state]; exact hs.current
    · rw [hc, ha.state]; exact hs.running
    · rw [ha.state, ha.fiber, ha.run]; exact hs.dead
    · rw [ha.state, ha.fiber, ha.run]; exact hs.run
    · rw [ha.isMain, ha.state, ha.fiber]; exact hs.bare
    · rw [ha.state, ha.run]
      intro hu hn
      have hen := hs.entering hu hn
      rcases he with he | he
      · rw [he] at hen; cases hen
      · rw [he]; exact hen
    · rw [hc, hm, ha.state, ha.fiber]; exact hs.turn
    · intro p hpf
      obtain ⟨h₁, h₂⟩ := hs.fiber p (ha.fiber ▸ hpf)
      rw [hc, hm]
      exact ⟨h₁, h₂.alike (hp r g' p hg' hh hpf)⟩
    · rw [hm, ha.state]; exact hs.victim
    · rw [ha.inbox]
      exact fun hn => (hs.inbox hn).imp id fun ⟨f, hx⟩ => ⟨f, (hw f).mpr hx⟩
    · rw [ha.inbox]
      exact fun f hx => hs.filled f ((hw f).mp hx)
    · intro f hx
      rw [hm] at hx
      rw [hc]
      refine hs.posted f (hx.imp id fun ⟨hb, hfin⟩ => ⟨hb, ?_⟩)
      rw [← (ht f (by simp [hb, Ground.turn?])).finished]
      exact hfin

end Scene

end Switchyard
