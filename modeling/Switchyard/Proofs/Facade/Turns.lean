import Switchyard.Proofs.Facade.Scene

/-!
# How scenes change

Each turn that the driver, a fiber or a release gives to a scene keeps it in order.
-/

namespace Switchyard.Scene

attribute [local grind =] Ground.isRunning Ground.isDriving Ground.isPosting Ground.isHome
  Ground.turn? Ground.isSeated Ground.holds Ground.isCalm Unwinding.victim? Scene.Awaits

/-- The greenlets of the hub change as `F` says, or go. -/
def Turned (h : HubId) (F : Ref → Greenlet → Greenlet) (G G' : Ref → Option Greenlet) : Prop :=
  ∀ r g', G' r = some g' → g'.hub = h → ∃ g, G r = some g ∧ g.hub = h ∧ g' = F r g

theorem Turned.refl {h : HubId} {G : Ref → Option Greenlet} : Turned h (fun _ g => g) G G :=
  fun _ k hk hh => ⟨k, hk, hh, rfl⟩

theorem Turned.modify {h : HubId} {F : Ref → Greenlet → Greenlet} {G : Ref → Option Greenlet}
    {t : Ref} {u : Greenlet → Greenlet} (ht : ∀ g, G t = some g → u g = F t g ∧ (u g).hub = g.hub)
    (hF : ∀ q g, q ≠ t → F q g = g) :
    Turned h F G fun q => if t = q then (G q).map u else G q := by
  intro q k hq hk
  dsimp only at hq
  by_cases hqt : t = q
  · subst hqt
    rw [if_pos rfl] at hq
    obtain ⟨g, hg, rfl⟩ := Option.map_eq_some_iff.mp hq
    exact ⟨g, hg, (ht g hg).2.symm.trans hk, (ht g hg).1⟩
  · rw [if_neg hqt] at hq
    exact ⟨k, hq, hk, (hF q k fun h => hqt h.symm).symm⟩

/-- No greenlet of the hub but `t` has the fiber `f`. -/
def Pinned (h : HubId) (G : Ref → Option Greenlet) (t : Ref) (f : FiberId) : Prop :=
  ∀ r g p, G r = some g → g.hub = h → g.fiber = some p → p.value = f → r = t

namespace Fine

variable {A A' : Prop} {h : HubId} {c : Core} {G G' : Ref → Option Greenlet}
  {F F' : FiberId → Fiber Task} {e e' : Edge} {t : Ref} {f : FiberId}

theorem ask (hf : Fine A h ⟨c, G, F, ⟨.idle, .none⟩, .plain⟩) (hg : Turned h (fun _ g => g) G G') :
    Fine A h ⟨c, G', F, ⟨.asked, .none⟩, e⟩ := by
  obtain ⟨h1, h2, h3, h5, h4, h6, h7, h8, h9⟩ := hf
  constructor
  case suits =>
    intro r g' hg' hh
    obtain ⟨k, hgr, hgh, rfl⟩ := hg r g' hg' hh
    obtain ⟨s1, s2, s3, s4, s5, s6, s7, s8, s9, s10, s11, s12, s13, s14⟩ := h9 r g' hgr hgh
    constructor
    case fiber =>
      intro p hpf
      obtain ⟨ho, hP⟩ := s10 p hpf
      refine ⟨ho, ?_⟩
      unfold Ground.Places at *
      grind -linarith
    all_goals grind -linarith
  all_goals grind -linarith

theorem begin (hf : Fine A h ⟨c, G, F, ⟨.asked, .none⟩, .plain⟩)
    (hg : Turned h (fun _ g => g) G G') :
    Fine A h ⟨{ c with driving := true }, G', F, ⟨.driving, .none⟩, e⟩ := by
  obtain ⟨h1, h2, h3, h5, h4, h6, h7, h8, h9⟩ := hf
  constructor
  case suits =>
    intro r g' hg' hh
    obtain ⟨k, hgr, hgh, rfl⟩ := hg r g' hg' hh
    obtain ⟨s1, s2, s3, s4, s5, s6, s7, s8, s9, s10, s11, s12, s13, s14⟩ := h9 r g' hgr hgh
    constructor
    case fiber =>
      intro p hpf
      obtain ⟨ho, hP⟩ := s10 p hpf
      refine ⟨ho, ?_⟩
      unfold Ground.Places at *
      grind -linarith
    all_goals grind -linarith
  all_goals grind -linarith

theorem finish (hf : Fine A h ⟨c, G, F, ⟨.arrived, .none⟩, .plain⟩)
    (hg : Turned h (fun _ g => g) G G') :
    Fine A h ⟨{ c with driving := false }, G', F, ⟨.idle, .none⟩, e⟩ := by
  obtain ⟨h1, h2, h3, h5, h4, h6, h7, h8, h9⟩ := hf
  constructor
  case suits =>
    intro r g' hg' hh
    obtain ⟨k, hgr, hgh, rfl⟩ := hg r g' hg' hh
    obtain ⟨s1, s2, s3, s4, s5, s6, s7, s8, s9, s10, s11, s12, s13, s14⟩ := h9 r g' hgr hgh
    constructor
    case fiber =>
      intro p hpf
      obtain ⟨ho, hP⟩ := s10 p hpf
      refine ⟨ho, ?_⟩
      unfold Ground.Places at *
      grind -linarith
    all_goals grind -linarith
  all_goals grind -linarith

theorem arrive (hf : Fine A h ⟨c, G, F, ⟨.driving, .none⟩, .plain⟩)
    (hg : Turned h (fun r g => { g with state := if r = c.main then .running
      else if r = c.current ∧ g.state = .running then .suspended else g.state }) G G') :
    Fine A h ⟨{ c with current := c.main }, G', F, ⟨.arrived, .none⟩, e⟩ := by
  obtain ⟨h1, h2, h3, h5, h4, h6, h7, h8, h9⟩ := hf
  constructor
  case suits =>
    intro r g' hg' hh
    obtain ⟨k, hgr, hgh, rfl⟩ := hg r g' hg' hh
    obtain ⟨s1, s2, s3, s4, s5, s6, s7, s8, s9, s10, s11, s12, s13, s14⟩ := h9 r k hgr hgh
    constructor
    case fiber =>
      intro p hpf
      obtain ⟨ho, hP⟩ := s10 p hpf
      refine ⟨ho, ?_⟩
      unfold Ground.Places at *
      grind -linarith
    all_goals grind -linarith
  all_goals grind -linarith

theorem ready (hf : Fine A h ⟨c, G, F, ⟨.driving, .none⟩, .plain⟩) {p : Payload}
    (ht : ∀ g, G t = some g → g.fiber = some ⟨c.thread, f⟩)
    (hF : ∀ f, (F f).Alike (F' f))
    (hg : Turned h (fun r g => { g with inbox := if r = t then some p else g.inbox }) G G') :
    Fine A h ⟨c, G', F', ⟨.ready t f, .none⟩, e⟩ := by
  obtain ⟨h1, h2, h3, h5, h4, h6, h7, h8, h9⟩ := hf
  constructor
  case suits =>
    intro r g' hg' hh
    obtain ⟨k, hgr, hgh, rfl⟩ := hg r g' hg' hh
    obtain ⟨s1, s2, s3, s4, s5, s6, s7, s8, s9, s10, s11, s12, s13, s14⟩ := h9 r k hgr hgh
    have ht : r = t → k.fiber = some ⟨c.thread, f⟩ := fun hr => ht k (hr ▸ hgr)
    constructor
    case fiber =>
      intro p hpf
      obtain ⟨ho, hP⟩ := s10 p hpf
      have hP := hP.alike (hF p.value)
      refine ⟨ho, ?_⟩
      unfold Ground.Places at *
      grind -linarith
    case inbox =>
      intro hi
      by_cases hr : r = t
      · obtain ⟨-, hP⟩ := s10 _ (ht hr)
        have hph := (hF f).phase
        cases hs : (F f).phase with
        | parked st => exact .inr ⟨f, .inr ⟨.inl (by rw [hr]), st, hph.trans hs⟩⟩
        | _ =>
          simp only [Ground.Places, hs] at hP
          grind -linarith
      · grind -linarith
    case filled => grind -linarith
    all_goals grind -linarith
  all_goals grind -linarith

theorem start (hf : Fine A h ⟨c, G, F, ⟨.driving, .none⟩, .plain⟩)
    (ht : ∀ g, G t = some g → g.run ≠ none)
    (hn : F f = { phase := .taken }) (hF : ∀ f', f' ≠ f → F' f' = F f')
    {entry discard : List Task} (hfr : (F' f).phase = .fresh entry discard)
    (hc : (F' f).cancelling = false) (hd : (F' f).finished = false)
    (hg : Turned h (fun r g => if r = t then { g with run := none, fiber := some ⟨c.thread, f⟩ }
      else g) G G') :
    Fine A h ⟨c, G', F', ⟨.ready t f, .none⟩, .entering t⟩ := by
  obtain ⟨h1, h2, h3, h5, h4, h6, h7, h8, h9⟩ := hf
  constructor
  case suits =>
    intro r g' hg' hh
    obtain ⟨k, hgr, hgh, rfl⟩ := hg r g' hg' hh
    obtain ⟨s1, s2, s3, s4, s5, s6, s7, s8, s9, s10, s11, s12, s13, s14⟩ := h9 r k hgr hgh
    have ht : r = t → k.run ≠ none := fun hr => ht k (hr ▸ hgr)
    constructor
    case fiber =>
      intro p hpf
      by_cases hr : r = t
      · simp only [hr, if_true, Option.some.injEq] at hpf
        subst hpf
        simp [Ground.Places, hfr, hc, hd, hr, Ground.holds]
      · simp only [hr, if_false] at hpf
        obtain ⟨ho, hP⟩ := s10 p hpf
        have hne : p.value ≠ f := by
          rintro rfl
          simp [Ground.Places, hn] at hP
        refine ⟨ho, ?_⟩
        simp only [hF p.value hne]
        unfold Ground.Places at *
        grind -linarith
    all_goals grind -linarith
  all_goals grind -linarith

theorem register (hf : Fine A h ⟨c, G, F, ⟨.ready t f, .none⟩, .entering t⟩)
    (hg : Turned h (fun r g => { g with state := if r = t then .running
      else if r = c.current ∧ g.state = .running then .suspended else g.state }) G G') :
    Fine A h ⟨{ c with current := t }, G', F, ⟨.starting t f, .none⟩, e⟩ := by
  obtain ⟨h1, h2, h3, h5, h4, h6, h7, h8, h9⟩ := hf
  constructor
  case suits =>
    intro r g' hg' hh
    obtain ⟨k, hgr, hgh, rfl⟩ := hg r g' hg' hh
    obtain ⟨s1, s2, s3, s4, s5, s6, s7, s8, s9, s10, s11, s12, s13, s14⟩ := h9 r k hgr hgh
    have ht : r = t → k.fiber = some ⟨c.thread, f⟩ := fun hr => (s9 f (by simp [hr, Ground.turn?])).1
    constructor
    case fiber =>
      intro p hpf
      obtain ⟨ho, hP⟩ := s10 p hpf
      refine ⟨ho, ?_⟩
      unfold Ground.Places at *
      grind -linarith
    case inbox => exact fun hi => by simpa [Awaits] using s12 hi
    case filled => exact fun f hx => s13 f (by simpa [Awaits] using hx)
    all_goals grind -linarith
  all_goals grind -linarith

theorem enter (hf : Fine A h ⟨c, G, F, ⟨.starting t f, .none⟩, .plain⟩)
    {entry discard : List Task} (hfr : (F f).phase = .fresh entry discard)
    (hpin : Pinned h G t f) (hF : ∀ f', f' ≠ f → F' f' = F f')
    (hF' : F' f = { F f with phase := .active, armed := true, started := true })
    (hg : Turned h (fun _ g => g) G G') :
    Fine A h ⟨{ c with runningFiber := true }, G', F', ⟨.on t f .code, .none⟩, e⟩ := by
  obtain ⟨h1, h2, h3, h5, h4, h6, h7, h8, h9⟩ := hf
  constructor
  case suits =>
    intro r g' hg' hh
    obtain ⟨k, hgr, hgh, rfl⟩ := hg r g' hg' hh
    obtain ⟨s1, s2, s3, s4, s5, s6, s7, s8, s9, s10, s11, s12, s13, s14⟩ := h9 r g' hgr hgh
    have hpr : ∀ p, g'.fiber = some p → p.value = f → r = t := fun p => hpin r g' p hgr hgh
    have htr : r = t → g'.fiber = some ⟨c.thread, f⟩ := fun hr => (s9 f (by simp [hr, Ground.turn?])).1
    constructor
    case fiber =>
      intro p hpf
      obtain ⟨ho, hP⟩ := s10 p hpf
      refine ⟨ho, ?_⟩
      by_cases hv : p.value = f
      · simp only [hv, hF', hpr p hpf hv]
        simp only [hv] at hP
        simp [Ground.Places, hfr] at hP ⊢
        exact ⟨hP.1, hP.2.1⟩
      · simp only [hF p.value hv]
        unfold Ground.Places at *
        grind -linarith
    case inbox => exact fun hi => by simpa [Awaits, hfr] using s12 hi
    case filled => exact fun f hx => absurd hx (by simp [Awaits])
    all_goals grind -linarith
  all_goals grind -linarith

theorem reenter (hf : Fine A h ⟨c, G, F, ⟨.starting t f, .none⟩, .plain⟩)
    {st : List (Item Task)} (hfr : (F f).phase = .parked st)
    (hpin : Pinned h G t f) (hF : ∀ f', f' ≠ f → F' f' = F f')
    (hF' : F' f = { F f with phase := .active })
    (hg : Turned h (fun _ g => g) G G') :
    Fine A h ⟨{ c with runningFiber := true }, G', F', ⟨.on t f .resumed, .none⟩, e⟩ := by
  obtain ⟨h1, h2, h3, h5, h4, h6, h7, h8, h9⟩ := hf
  constructor
  case suits =>
    intro r g' hg' hh
    obtain ⟨k, hgr, hgh, rfl⟩ := hg r g' hg' hh
    obtain ⟨s1, s2, s3, s4, s5, s6, s7, s8, s9, s10, s11, s12, s13, s14⟩ := h9 r g' hgr hgh
    have hpr : ∀ p, g'.fiber = some p → p.value = f → r = t := fun p => hpin r g' p hgr hgh
    have htr : r = t → g'.fiber = some ⟨c.thread, f⟩ := fun hr => (s9 f (by simp [hr, Ground.turn?])).1
    constructor
    case fiber =>
      intro p hpf
      obtain ⟨ho, hP⟩ := s10 p hpf
      refine ⟨ho, ?_⟩
      by_cases hv : p.value = f
      · simp only [hv, hF', hpr p hpf hv]
        simp only [hv] at hP
        simp [Ground.Places, hfr] at hP ⊢
        exact ⟨hP.1, hP.2.1, hP.2.2.1⟩
      · simp only [hF p.value hv]
        unfold Ground.Places at *
        grind -linarith
    case inbox => exact fun hi => by simpa [Awaits, hfr] using s12 hi
    case filled =>
      intro f' hx
      refine s13 f' ?_
      simp only [Awaits] at hx ⊢
      grind -linarith
    all_goals grind -linarith
  all_goals grind -linarith

theorem read (hf : Fine A h ⟨c, G, F, ⟨.on t f .resumed, .none⟩, .plain⟩)
    (hg : Turned h (fun r g => { g with inbox := if r = t then none else g.inbox }) G G') :
    Fine A h ⟨c, G', F, ⟨.on t f .code, .none⟩, e⟩ := by
  obtain ⟨h1, h2, h3, h5, h4, h6, h7, h8, h9⟩ := hf
  constructor
  case suits =>
    intro r g' hg' hh
    obtain ⟨k, hgr, hgh, rfl⟩ := hg r g' hg' hh
    obtain ⟨s1, s2, s3, s4, s5, s6, s7, s8, s9, s10, s11, s12, s13, s14⟩ := h9 r k hgr hgh
    constructor
    case fiber =>
      intro p hpf
      obtain ⟨ho, hP⟩ := s10 p hpf
      refine ⟨ho, ?_⟩
      unfold Ground.Places at *
      grind -linarith
    all_goals grind -linarith
  all_goals grind -linarith

theorem post (hf : Fine A h ⟨c, G, F, ⟨.on t f .code, .none⟩, .plain⟩)
    {u : Ref} {p : Payload} (hg : Turned h (fun _ g => g) G G') :
    Fine A h ⟨{ c with outgoing := some (.switch u p) }, G', F, ⟨.on t f .suspended, .none⟩, e⟩ := by
  obtain ⟨h1, h2, h3, h5, h4, h6, h7, h8, h9⟩ := hf
  constructor
  case suits =>
    intro r g' hg' hh
    obtain ⟨k, hgr, hgh, rfl⟩ := hg r g' hg' hh
    obtain ⟨s1, s2, s3, s4, s5, s6, s7, s8, s9, s10, s11, s12, s13, s14⟩ := h9 r g' hgr hgh
    constructor
    case fiber =>
      intro p hpf
      obtain ⟨ho, hP⟩ := s10 p hpf
      refine ⟨ho, ?_⟩
      unfold Ground.Places at *
      grind -linarith
    all_goals grind -linarith
  all_goals grind -linarith

theorem conclude (hf : Fine A h ⟨c, G, F, ⟨.on t f .code, .none⟩, .plain⟩)
    {o : Option Outgoing} (hg : Turned h (fun _ g => g) G G') :
    Fine A h ⟨{ c with outgoing := o }, G', F, ⟨.on t f .landed, .none⟩, e⟩ := by
  obtain ⟨h1, h2, h3, h5, h4, h6, h7, h8, h9⟩ := hf
  constructor
  case suits =>
    intro r g' hg' hh
    obtain ⟨k, hgr, hgh, rfl⟩ := hg r g' hg' hh
    obtain ⟨s1, s2, s3, s4, s5, s6, s7, s8, s9, s10, s11, s12, s13, s14⟩ := h9 r g' hgr hgh
    constructor
    case fiber =>
      intro p hpf
      obtain ⟨ho, hP⟩ := s10 p hpf
      refine ⟨ho, ?_⟩
      unfold Ground.Places at *
      grind -linarith
    all_goals grind -linarith
  all_goals grind -linarith

theorem leave (hf : Fine A h ⟨c, G, F, ⟨.on t f .suspended, .none⟩, .plain⟩)
    {l : List (Item Task)} (hw : Spot.walk (Spot.step f) l = some .resumed)
    (hpin : Pinned h G t f) (hF : ∀ f', f' ≠ f → F' f' = F f')
    (hF' : F' f = { F f with phase := .parked l })
    (hg : Turned h (fun _ g => g) G G') :
    Fine A h ⟨c, G', F', ⟨.back t f, .none⟩, e⟩ := by
  obtain ⟨h1, h2, h3, h5, h4, h6, h7, h8, h9⟩ := hf
  constructor
  case suits =>
    intro r g' hg' hh
    obtain ⟨k, hgr, hgh, rfl⟩ := hg r g' hg' hh
    obtain ⟨s1, s2, s3, s4, s5, s6, s7, s8, s9, s10, s11, s12, s13, s14⟩ := h9 r g' hgr hgh
    have hpr : ∀ p, g'.fiber = some p → p.value = f → r = t := fun p => hpin r g' p hgr hgh
    have htr : r = t → g'.fiber = some ⟨c.thread, f⟩ := fun hr => (s9 f (by simp [hr, Ground.turn?])).1
    constructor
    case fiber =>
      intro p hpf
      obtain ⟨ho, hP⟩ := s10 p hpf
      refine ⟨ho, ?_⟩
      by_cases hv : p.value = f
      · have hr := hpr p hpf hv
        simp only [hv, hF', hr]
        simp only [hv, hr] at hP
        obtain ⟨hca, -, har, hfi⟩ := Ground.places_on.mp hP
        simp [Ground.Places, hca, har, hfi, hw]
      · simp only [hF p.value hv]
        unfold Ground.Places at *
        grind -linarith
    all_goals grind -linarith
  all_goals grind -linarith

theorem land (hf : Fine A h ⟨c, G, F, ⟨.on t f .landed, .none⟩, .plain⟩)
    (hpin : Pinned h G t f) (hF : ∀ f', f' ≠ f → F' f' = F f')
    (hF' : F' f = { (F f).settle with phase := .ended })
    (hg : Turned h (fun _ g => g) G G') :
    Fine A h ⟨c, G', F', ⟨.back t f, .none⟩, e⟩ := by
  have hfin : (F' f).finished = true := by rw [hF']; rfl
  obtain ⟨h1, h2, h3, h5, h4, h6, h7, h8, h9⟩ := hf
  constructor
  case suits =>
    intro r g' hg' hh
    obtain ⟨k, hgr, hgh, rfl⟩ := hg r g' hg' hh
    obtain ⟨s1, s2, s3, s4, s5, s6, s7, s8, s9, s10, s11, s12, s13, s14⟩ := h9 r g' hgr hgh
    have hpr : ∀ p, g'.fiber = some p → p.value = f → r = t := fun p => hpin r g' p hgr hgh
    have htr : r = t → g'.fiber = some ⟨c.thread, f⟩ := fun hr => (s9 f (by simp [hr, Ground.turn?])).1
    constructor
    case fiber =>
      intro p hpf
      obtain ⟨ho, hP⟩ := s10 p hpf
      refine ⟨ho, ?_⟩
      by_cases hv : p.value = f
      · have hr := hpr p hpf hv
        simp only [hv, hF', hr]
        simp only [hv, hr] at hP
        simp [Ground.Places, Fiber.settle] at hP ⊢
        exact hP.1
      · simp only [hF p.value hv]
        unfold Ground.Places at *
        grind -linarith
    all_goals grind -linarith
  all_goals grind -linarith

theorem resume (hf : Fine A h ⟨c, G, F, ⟨.back t f, .none⟩, .plain⟩)
    (hfin : (F f).finished = false) (hpin : Pinned h G t f)
    (hg : Turned h (fun _ g => g) G G') :
    Fine A h ⟨{ c with runningFiber := false, outgoing := none }, G', F, ⟨.driving, .none⟩, e⟩ := by
  obtain ⟨h1, h2, h3, h5, h4, h6, h7, h8, h9⟩ := hf
  constructor
  case suits =>
    intro r g' hg' hh
    obtain ⟨k, hgr, hgh, rfl⟩ := hg r g' hg' hh
    obtain ⟨s1, s2, s3, s4, s5, s6, s7, s8, s9, s10, s11, s12, s13, s14⟩ := h9 r g' hgr hgh
    have hpr : ∀ p, g'.fiber = some p → p.value = f → r = t := fun p => hpin r g' p hgr hgh
    have htr : r = t → g'.fiber = some ⟨c.thread, f⟩ := fun hr => (s9 f (by simp [hr, Ground.turn?])).1
    constructor
    case fiber =>
      intro p hpf
      obtain ⟨ho, hP⟩ := s10 p hpf
      refine ⟨ho, ?_⟩
      unfold Ground.Places at *
      grind -linarith
    all_goals grind -linarith
  all_goals grind -linarith

theorem retire (hf : Fine A h ⟨c, G, F, ⟨.back t f, .none⟩, .plain⟩) (hpin : Pinned h G t f)
    (hg : Turned h (fun r g => if r = t then { g with state := .dead, fiber := none } else g) G G') :
    Fine A h ⟨{ c with runningFiber := false, outgoing := none }, G', F, ⟨.driving, .none⟩, e⟩ := by
  obtain ⟨h1, h2, h3, h5, h4, h6, h7, h8, h9⟩ := hf
  constructor
  case suits =>
    intro r g' hg' hh
    obtain ⟨k, hgr, hgh, rfl⟩ := hg r g' hg' hh
    obtain ⟨s1, s2, s3, s4, s5, s6, s7, s8, s9, s10, s11, s12, s13, s14⟩ := h9 r k hgr hgh
    have hpr : ∀ p, k.fiber = some p → p.value = f → r = t := fun p => hpin r k p hgr hgh
    have htr : r = t → k.fiber = some ⟨c.thread, f⟩ := fun hr => (s9 f (by simp [hr, Ground.turn?])).1
    constructor
    case fiber =>
      intro p hpf
      by_cases hr : r = t
      · simp [hr] at hpf
      · simp only [hr, if_false] at hpf
        obtain ⟨ho, hP⟩ := s10 p hpf
        refine ⟨ho, ?_⟩
        unfold Ground.Places at *
        grind -linarith
    all_goals grind -linarith
  all_goals grind -linarith

theorem bury {m : Mode} (hf : Fine A h ⟨c, G, F, m, .plain⟩) (hcur : t ≠ c.current) (hmain : t ≠ c.main)
    (hturn : ∀ f, m.ground.turn? ≠ some (t, f))
    (hF : ∀ r g p, G r = some g → g.hub = h → g.fiber = some p → r ≠ t →
      F' p.value = F p.value)
    (ho : ∀ f, (F f).isTaken = true ∧ (F f).cancelling = true →
      (F' f).isTaken = true ∧ (F' f).cancelling = true)
    (hg : Turned h (fun r g => if r = t then { g with state := .dead, run := none, fiber := none }
      else g) G G') :
    Fine A h ⟨c, G', F', m, e⟩ := by
  obtain ⟨h1, h2, h3, h5, h4, h6, h7, h8, h9⟩ := hf
  constructor
  case suits =>
    intro r g' hg' hh
    obtain ⟨k, hgr, hgh, rfl⟩ := hg r g' hg' hh
    obtain ⟨s1, s2, s3, s4, s5, s6, s7, s8, s9, s10, s11, s12, s13, s14⟩ := h9 r k hgr hgh
    have hFr : r ≠ t → ∀ p, k.fiber = some p → F' p.value = F p.value :=
      fun hr p hp => hF r k p hgr hgh hp hr
    have hw : ∀ f, (Scene.mk c G' F' m e).Awaits r f ↔ (Scene.mk c G F m .plain).Awaits r f :=
      awaits_congr rfl fun f hf => congrArg _ (hFr (fun hr => hturn f (hr ▸ hf)) ⟨c.thread, f⟩ (s9 f hf).1)
    constructor
    case fiber =>
      intro p hpf
      by_cases hr : r = t
      · simp [hr] at hpf
      · simp only [hr, if_false] at hpf
        obtain ⟨hto, hP⟩ := s10 p hpf
        refine ⟨hto, ?_⟩
        simpa only [hFr hr p hpf] using hP
    case inbox =>
      exact fun hi => (s12 (by grind)).imp id fun ⟨f, hx⟩ => ⟨f, (hw f).mpr hx⟩
    case filled =>
      exact fun f hx => by
        have := s13 f ((hw f).mp hx)
        grind -linarith
    all_goals grind -linarith
  all_goals grind -linarith

theorem unwinding {g : Ground} {u u' : Unwinding} {b : Bool} (hf : Fine A h ⟨c, G, F, ⟨g, u⟩, .plain⟩)
    (hb : u' ≠ .none → b = true) (hb' : b = true → A ∨ u' ≠ .none)
    (hoff : ∀ r f x, u' = .off r f x →
      (F f).isTaken = true ∧ (F f).cancelling = true ∧ x ≠ .resumed)
    (hv : ∀ r k, G r = some k → k.hub = h → u'.victim? = some r → k.state = .dead)
    (hg : Turned h (fun _ g => g) G G') :
    Fine A h ⟨{ c with releasing := b }, G', F, ⟨g, u'⟩, e⟩ := by
  obtain ⟨h1, h2, h3, h5, h4, h6, h7, h8, h9⟩ := hf
  constructor
  case suits =>
    intro r g' hg' hh
    obtain ⟨k, hgr, hgh, rfl⟩ := hg r g' hg' hh
    obtain ⟨s1, s2, s3, s4, s5, s6, s7, s8, s9, s10, s11, s12, s13, s14⟩ := h9 r g' hgr hgh
    have hvr := hv r g' hgr hgh
    have hw : ∀ f, (Scene.mk { c with releasing := b } G' F ⟨g, u'⟩ e).Awaits r f ↔
        (Scene.mk c G F ⟨g, u⟩ .plain).Awaits r f := awaits_congr rfl fun _ _ => rfl
    constructor
    case fiber =>
      intro p hpf
      obtain ⟨ho, hP⟩ := s10 p hpf
      refine ⟨ho, ?_⟩
      unfold Ground.Places at *
      grind -linarith
    case inbox =>
      exact fun hi => (s12 (by grind)).imp id fun ⟨f, hx⟩ => ⟨f, (hw f).mpr hx⟩
    case filled =>
      exact fun f hx => by
        have := s13 f ((hw f).mp hx)
        grind -linarith
    all_goals grind -linarith
  all_goals grind -linarith

theorem escape {g : Ground} (hf : Fine A h ⟨c, G, F, ⟨g, .none⟩, .plain⟩) (hc : g.isCalm = true)
    (hd : g.isDriving = true) (hA : A) (hg : Turned h (fun _ g => g) G G') :
    Fine A h ⟨c, G', F, ⟨.arrived, .none⟩, e⟩ := by
  have hr : g.isRunning = false := by cases g <;> first | rfl | cases hc
  have hp : g.isPosting = false := by cases g <;> first | rfl | cases hc
  obtain ⟨h1, h2, h3, h5, h4, h6, h7, h8, h9⟩ := hf
  constructor
  case suits =>
    intro r g' hg' hh
    obtain ⟨k, hgr, hgh, rfl⟩ := hg r g' hg' hh
    obtain ⟨s1, s2, s3, s4, s5, s6, s7, s8, s9, s10, s11, s12, s13, s14⟩ := h9 r g' hgr hgh
    constructor
    case fiber =>
      intro p hpf
      obtain ⟨ho, hP⟩ := s10 p hpf
      refine ⟨ho, ?_⟩
      unfold Ground.Places at *
      cases g <;> grind -linarith
    all_goals grind -linarith
  all_goals grind -linarith

end Fine
end Switchyard.Scene
