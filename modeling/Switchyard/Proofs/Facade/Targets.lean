import Switchyard.Proofs.Facade.Driver

/-!
# Turns of greenlets

The driver gives a greenlet its payload, or kills it, and makes it the current greenlet.
-/

namespace Switchyard

open World

namespace World

variable {A : Prop} {w w' : World} {m m₀ : Mode} {e : Edge} {t : Task}
  {below : List (Item Task)} {hand hand' : List Token} {h : HubId} {f : FiberId} {p : Payload}
  {r target : Ref} {g : Ground}

theorem modifyGreenlet_congr {u u' : Greenlet → Greenlet}
    (hu : ∀ g, w.greenlet? r = some g → u g = u' g) :
    w.modifyGreenlet r u = w.modifyGreenlet r u' := by
  refine modifyObject_congr fun o ho => ?_
  obtain ⟨n, v⟩ := o
  cases v with
  | greenlet g => simp only [hu g (greenlet?_eq_some_iff.mpr ⟨n, ho⟩)]
  | _ => rfl

theorem modifyGreenlet_eq_self {u : Greenlet → Greenlet}
    (hu : ∀ g, w.greenlet? r = some g → u g = g) : w.modifyGreenlet r u = w := by
  rw [World.modifyGreenlet, modifyObject_congr (g := id) fun o ho => ?_]
  · have hh : w.heap.modify r (Option.map id) = w.heap := by
      refine Array.ext_getElem? fun i => ?_
      rw [Array.getElem?_modify]
      split <;> simp
    rw [World.modifyObject, hh]
  · obtain ⟨n, v⟩ := o
    cases v with
    | greenlet g => simp only [hu g (greenlet?_eq_some_iff.mpr ⟨n, ho⟩), id]
    | _ => rfl

theorem giveWay_eq : (if (w.greenlet r).state == .running then w.setState r .suspended else w) =
    w.modifyGreenlet r fun g =>
      { g with state := if g.state = .running then .suspended else g.state } := by
  split
  · rename_i hr
    refine modifyGreenlet_congr fun g hg => ?_
    rw [greenlet_of_some hg, beq_iff_eq] at hr
    simp [hr, RunState.moveTo, RunState.isDead]
  · rename_i hr
    refine (modifyGreenlet_eq_self fun g hg => ?_).symm
    rw [greenlet_of_some hg, beq_iff_eq] at hr
    rw [if_neg hr]

theorem Covered.restate (hc : Covered hand w) {u : Greenlet → Greenlet}
    (hu : ∀ g, u g = { g with state := (u g).state }) : Covered hand (w.modifyGreenlet r u) := by
  refine hc.modifyGreenlet (fun g _ k => ?_) fun _ _ => Nat.le_refl _
  rw [hu g]
  exact Nat.le_refl _

/-- What becomes of the states when `target` is made the current greenlet of `h`. -/
def reseat (h : HubId) (target : Ref) (w : World) : World :=
  ((((w.retain target).modifyHub h fun s => { s with current := target }).modifyGreenlet
    (w.hub h).current fun g =>
      { g with state := if g.state = .running then .suspended else g.state }).setState target
        .running).modifyStats h fun s => { s with switches := s.switches + 1 }

theorem thread_reseat (h : HubId) (target : Ref) : (w.reseat h target).thread = w.thread := by
  simp only [reseat, World.thread, modifyStats, modifyHub, setState, modifyGreenlet, modifyObject,
    retain]

theorem registerSwitch_ok (ht : (w.greenlet target).thread = (w.hub h).thread) :
    ∃ v, w.registerSwitch h target = (.ok (w.hub h).current, v) ∧ Quiet (w.reseat h target) v := by
  unfold World.registerSwitch
  dsimp only
  rw [if_neg (by simp [ht]), giveWay_eq]
  exact ⟨_, rfl, .write _ _⟩

theorem Turning.reseat {v : World} {s : Hub} {G : Ref → Option Greenlet} {F : FiberId → Fiber Task}
    (ht : Turning A w h s G F v) (hb : v.Belongs target h) (hpos : 0 < v.count target) :
    Turning A w h { s with current := target, stats := { s.stats with switches := s.stats.switches + 1 } }
      (fun q => if target = q then (if s.current = q then (G q).map fun g =>
          { g with state := if g.state = .running then .suspended else g.state } else G q).map
            fun g => { g with state := g.state.moveTo .running }
        else if s.current = q then (G q).map fun g =>
          { g with state := if g.state = .running then .suspended else g.state } else G q) F
      (v.reseat h target) := by
  have hcur : v.Belongs s.current h := ht.hub ▸ (ht.staging.hubs h ht.lt_size).current
  unfold World.reseat
  rw [ht.hub]
  have hl₁ : Later v (v.retain target) := .retain target
  have hl₂ : Later v ((v.retain target).modifyHub h fun s => { s with current := target }) :=
    hl₁.trans (.modifyHub' h fun _ => ⟨rfl, rfl, rfl⟩)
  have h₁ := ht.retain hpos
  have h₂ := h₁.modifyHub (u := fun s => { s with current := target })
    (fun _ => ⟨rfl, rfl, rfl, rfl⟩) fun o => { o with current := hb.later hl₁ }
  have h₃ := h₂.restate (u := fun g =>
    { g with state := if g.state = .running then .suspended else g.state }) (fun _ => rfl)
    (fun g hd => by simp [hd]) (fun g hn => by split at hn <;> first | cases hn | exact hn)
    (hcur.later hl₂)
  have h₄ := h₃.restate (u := fun g => { g with state := g.state.moveTo .running }) (fun _ => rfl)
    (fun g hd => by simp [hd, RunState.moveTo, RunState.isDead])
    (fun g hn => by cases RunState.eq_unstarted_of_moveTo hn)
    ((hb.later hl₂).later (.modifyGreenlet _ fun g _ =>
      ⟨rfl, rfl, rfl, rfl, fun hd => by simp [hd], id⟩))
  exact h₄.modifyHub (u := fun s => { s with stats := { s.stats with switches := s.stats.switches + 1 } })
    (fun _ => ⟨rfl, rfl, rfl, rfl⟩) fun o => { o with }

theorem Covered.reseat (hc : Covered (.object target :: hand) w) (hns : .sole target ∉ hand)
    (hh : h < w.hubs.size) (hd : (w.hub h).disposed = false) :
    Covered (.object (w.hub h).current :: .object target :: hand) (w.reseat h target) := by
  have h₁ := hc.copy (r := target) (.inr List.mem_cons_self) (by simpa using hns)
  have hk : (w.retain target).hub h = w.hub h := rfl
  have hz : (w.retain target).hubs.size = w.hubs.size := rfl
  unfold World.reseat
  generalize w.retain target = v at *
  have h₂ : Covered (.object (w.hub h).current :: .object target :: hand)
      (v.modifyHub h fun s => { s with current := target }) := by
    refine h₁.modifyHub (f := fun s => { s with current := target }) (fun s hs k => ?_)
      fun hn => ?_
    · obtain rfl : s = w.hub h := by rw [← hk, hub_of_some hs]
      have hsup : Hub.supply { w.hub h with current := target } h k = (w.hub h).supply h k := by
        cases k <;> rfl
      rw [hsup]
      simp only [Hub.tokens, hd, Bool.false_eq_true, if_false, List.count_append, List.count_cons,
        List.count_nil]
      omega
    · rw [Array.getElem?_eq_none_iff] at hn
      exact absurd hh (Nat.not_lt.mpr (hz ▸ hn))
  have h₃ := (h₂.restate (r := (w.hub h).current) (u := fun g =>
    { g with state := if g.state = .running then .suspended else g.state }) fun _ => rfl).restate
    (r := target) (u := fun g => { g with state := g.state.moveTo .running }) fun _ => rfl
  exact Covered.modifyHub_of_eq (fun _ => ⟨rfl, rfl, rfl⟩) h₃

theorem turned_reseat {s : Hub} {G : Ref → Option Greenlet}
    (hd : ∀ g, G target = some g → g.state ≠ .dead) :
    Scene.Turned h (fun r g => { g with state := if r = target then .running
      else if r = s.current ∧ g.state = .running then .suspended else g.state }) G
      (fun q => if target = q then (if s.current = q then (G q).map fun g =>
          { g with state := if g.state = .running then .suspended else g.state } else G q).map
            fun g => { g with state := g.state.moveTo .running }
        else if s.current = q then (G q).map fun g =>
          { g with state := if g.state = .running then .suspended else g.state } else G q) := by
  intro q k hq hk
  by_cases ht : target = q
  · subst ht
    simp only [if_true] at hq
    obtain ⟨k', hq', rfl⟩ := Option.map_eq_some_iff.mp hq
    by_cases hc : s.current = target
    · rw [if_pos hc] at hq'
      obtain ⟨g, hg, rfl⟩ := Option.map_eq_some_iff.mp hq'
      refine ⟨g, hg, hk, ?_⟩
      have := hd g hg
      cases hst : g.state <;> simp_all [RunState.moveTo, RunState.isDead]
    · rw [if_neg hc] at hq'
      refine ⟨k', hq', hk, ?_⟩
      have := hd k' hq'
      cases hst : k'.state <;> simp_all [RunState.moveTo, RunState.isDead]
  · simp only [if_neg ht] at hq
    have ht' : ¬ q = target := fun h => ht h.symm
    by_cases hc : s.current = q
    · rw [if_pos hc] at hq
      obtain ⟨g, hg, rfl⟩ := Option.map_eq_some_iff.mp hq
      subst hc
      exact ⟨g, hg, hk, by simp [ht']⟩
    · rw [if_neg hc] at hq
      refine ⟨k, hq, hk, ?_⟩
      have hc' : ¬ q = s.current := fun h => hc h.symm
      simp [ht', hc']

theorem Poised.registerSwitch {k : Mode} {d : Edge}
    (hs : Poised A (.object target :: hand) m₀ m e w)
    (ho : w.Owned h (w.active - 1)) (hb : w.Belongs target h) (hns : .sole target ∉ hand)
    (he : ∀ k, e ≠ .closing k) (hm : m ≠ .idle)
    (hlive : (w.scene h m e).Fine A h → ∀ g, w.living? target = some g → g.hub = h →
      g.state ≠ .dead)
    (hf : (w.scene h m e).Fine A h → ∀ G',
      Scene.Turned h (fun r g => { g with state := if r = target then .running
        else if r = (w.hub h).current ∧ g.state = .running then .suspended else g.state })
        w.living? G' →
      Scene.Fine A h ⟨{ (w.hub h).core with current := target }, G', w.fiberD, k, d⟩) :
    ∃ v, w.registerSwitch h target = (.ok (w.hub h).current, v) ∧ Later w v ∧
      v.active = w.active ∧
      Poised A (.object (w.hub h).current :: .object target :: hand) m₀ k d v := by
  obtain ⟨o, hob, hpos⟩ := hs.covered.object?_of_mem (r := target) List.mem_cons_self
  obtain ⟨g, hg, hh⟩ := hb.greenlet? hob
  have hthread : (w.greenlet target).thread = (w.hub h).thread := by
    obtain ⟨n, -, hd⟩ := hs.staging.decent hg
    rw [greenlet_of_some hg, hd.thread, hh]
  have hcount : 0 < w.count target := by rwa [count_of_some hob]
  have hbelongs (k : Greenlet) (hk : w.living? target = some k) : k.hub = h := by
    obtain rfl : k = g := Option.some.inj ((greenlet?_of_living hk).symm.trans hg)
    exact hh
  have ht := (Turning.start hs.staging ho).reseat hb hcount
  have hst : Staging A (some (k, d)) (w.reseat h target) :=
    ht.take hs.staging he (fun hi => absurd hi hm) ⟨rfl, rfl⟩ fun _ hfine =>
      hf hfine _ (turned_reseat fun k hk => hlive hfine k hk (hbelongs k hk))
  have hcov := hs.covered.reseat hns ho.1 (hs.staging.undisposed ho hm)
  have hp := hs.turn hst hcov ht.later ht.beside.active
    (congrArg Thread.stack (thread_reseat h target))
  obtain ⟨v, hv, hq⟩ := registerSwitch_ok (h := h) hthread
  exact ⟨v, hv, ht.later.trans (.of_quiet hq), hq.active.trans ht.beside.active, hp.quiet hq⟩

/-- The world in which `r` has got the fiber `s`, with two handles to it. -/
def equip (r : Ref) (s : Fiber Task) (w : World) : World :=
  { w with fibers := w.fibers.push s }.modifyGreenlet r fun g =>
    { g with run := none, fiber := some ⟨w.active, w.fibers.size⟩ }

theorem later_equip {s : Fiber Task} : Later w (w.equip r s) := by
  have h₁ : Later w { w with fibers := w.fibers.push s } := by
    refine ⟨fun _ x hx => ⟨x, hx, rfl, rfl, id⟩, Nat.le_refl _,
      fun _ o _ ho => ⟨o, ho, fun g hg => ⟨g, hg, .refl g⟩, id⟩, fun f x hx => ⟨x, ?_, .refl x⟩⟩
    have hlt : f < w.fibers.size := by
      by_contra hn
      rw [Array.getElem?_eq_none (Nat.le_of_not_lt hn)] at hx
      cases hx
    simp only [Array.getElem?_push]
    rw [if_neg (Nat.ne_of_lt hlt)]
    exact hx
  exact h₁.trans (.modifyGreenlet r fun _ _ => ⟨rfl, rfl, rfl, rfl, id, fun _ => rfl⟩)

theorem fiberD_equip {s : Fiber Task} (f : FiberId) :
    (w.equip r s).fiberD f = if f = w.fibers.size then s else w.fiberD f := by
  rw [fiberD_eq, fiberD_eq]
  change (w.fibers.push s)[f]?.getD _ = _
  rw [Array.getElem?_push]
  split <;> rfl

theorem Staging.equip (hs : Staging A none w) {n : Nat} {g : Greenlet}
    (ho : w.object? r = some ⟨n, .greenlet g⟩) (hn : 0 < n) (hf : g.fiber = none)
    (hmain : g.isMain = false) (hopen : (w.hub g.hub).closed = false)
    (ht : (w.hub g.hub).thread = w.active) {s : Fiber Task}
    (hsf : s.Filed (w.equip r s) g.hub (w.active - 1) w.fibers.size) :
    Staging A none (w.equip r s) := by
  have hl : Later w (w.equip r s) := later_equip
  have hb : Beside w (w.equip r s) := .of_threads rfl rfl rfl
  have hfd : ∀ f, (w.equip r s).fiberD f = if f = w.fibers.size then s else w.fiberD f :=
    fiberD_equip
  have hobj (q : Ref) : (w.equip r s).object? q = if r = q then
      some ⟨n, .greenlet { g with run := none, fiber := some ⟨w.active, w.fibers.size⟩ }⟩
      else w.object? q := by
    refine (object?_modifyObject (w := { w with fibers := w.fibers.push s }) r q _).trans ?_
    split
    · subst_vars
      change (w.object? _).map _ = _
      rw [ho]
      rfl
    · rfl
  have hhub : (w.equip r s).hub = w.hub := rfl
  have hhubs : (w.equip r s).hubs = w.hubs := rfl
  have hsize : (w.equip r s).fibers.size = w.fibers.size + 1 := by
    change (w.fibers.push s).size = _
    simp
  have hold {q : Ref} {k : Nat} {g' : Greenlet}
      (hq : (w.equip r s).object? q = some ⟨k, .greenlet g'⟩) :
      (q = r ∧ k = n ∧ g' = { g with run := none, fiber := some ⟨w.active, w.fibers.size⟩ }) ∨
        r ≠ q ∧ w.object? q = some ⟨k, .greenlet g'⟩ := by
    rw [hobj] at hq
    split at hq
    · cases hq
      exact .inl ⟨‹r = q›.symm, rfl, rfl⟩
    · exact .inr ⟨‹_›, hq⟩
  have hlt {q : Ref} {g' : Greenlet} {p : Pinned FiberId} {k : Nat}
      (hq : w.object? q = some ⟨k, .greenlet g'⟩) (hp : g'.fiber = some p) :
      p.value < w.fibers.size := ((hs.greenlets q k g' hq).saved p hp).1
  generalize w.equip r s = v at *
  have hdr := hs.greenlets r n g ho
  constructor
  · exact hb.manned hs.manned
  · exact hb.named.trans hs.named
  · intro i hi
    rw [hb.active] at hi
    rw [hb.stackAt i hi]
    exact ⟨(hs.elsewhere i hi).1, (hs.elsewhere i hi).2.later hl⟩
  · intro q k g' hq
    rcases hold hq with ⟨rfl, rfl, rfl⟩ | ⟨-, hq⟩
    · refine ⟨by rw [hhubs]; exact hdr.hub, by rw [hhub]; exact hdr.thread,
        fun p hp => (hdr.parent p hp).later hl, fun hm => absurd (hmain.symm.trans hm) Bool.false_ne_true,
        fun _ => ⟨rfl, hmain⟩, fun h => absurd h (Nat.ne_of_gt hn), fun hc => ?_, fun hc => ?_,
        fun hc hm hp => ?_, fun p hp => ?_⟩
      · rw [hhub, hopen] at hc
        cases hc
      · rw [hhub, hopen] at hc
        cases hc
      · rw [hhub]
        exact hdr.listed hopen hm hp
      · cases hp
        rw [hsize, hfd, if_pos rfl, hhub, ht]
        exact ⟨Nat.lt_succ_self _, hsf⟩
    · have hd := hs.greenlets q k g' hq
      refine hd.later hl hhubs id hd.buried fun p hp => ?_
      rw [hfd, if_neg (Nat.ne_of_lt (hlt hq hp))]
      exact (hd.saved p hp).2.later hl
  · intro q q' g₁ g₂ p p' hq hq' hp hp' hv
    obtain ⟨k, hq⟩ := greenlet?_eq_some_iff.mp hq
    obtain ⟨k', hq'⟩ := greenlet?_eq_some_iff.mp hq'
    rcases hold hq with ⟨rfl, -, rfl⟩ | ⟨-, hq⟩ <;> rcases hold hq' with ⟨rfl, -, rfl⟩ | ⟨-, hq'⟩
    · rfl
    · cases hp
      exact absurd hv.symm (Nat.ne_of_lt (hlt hq' hp'))
    · cases hp'
      exact absurd hv (Nat.ne_of_lt (hlt hq hp))
    · exact hs.pins q q' g₁ g₂ p p' (greenlet?_eq_some_iff.mpr ⟨k, hq⟩)
        (greenlet?_eq_some_iff.mpr ⟨k', hq'⟩) hp hp' hv
  · intro f hlt' hov
    rw [hsize] at hlt'
    rw [hfd] at hov
    split at hov
    · rename_i hf
      exact ⟨r, _, _, greenlet?_eq_some_iff.mpr ⟨n, by rw [hobj, if_pos rfl]⟩, rfl, hf.symm⟩
    · rename_i hne
      obtain ⟨q, g', p, hq, hp, rfl⟩ := hs.held f
        (Nat.lt_of_le_of_ne (Nat.le_of_lt_succ hlt') hne) hov
      obtain ⟨k, hq⟩ := greenlet?_eq_some_iff.mp hq
      refine ⟨q, g', p, greenlet?_eq_some_iff.mpr ⟨k, ?_⟩, hp, rfl⟩
      rw [hobj, if_neg, hq]
      rintro rfl
      rw [ho] at hq
      cases hq
      rw [hf] at hp
      cases hp
  · intro k hk
    rw [hhubs] at hk
    rw [hhub]
    exact (hs.hubs k hk).later hl hb.size
  · rw [hhubs, hhub]
    exact hs.unique
  · intro i k hi
    rw [hb.homeAt] at hi
    exact (hs.homes i k hi).later hl
  · intro k hk
    rw [hhubs] at hk
    rw [hhub, hb.homeAt]
    exact hs.vacant k hk
  · intro k hk m e hsh
    rw [hhubs] at hk
    have hsh₀ := hs.shows_of hb hk (by rw [hhub]) hsh
    have hst := hs.staged k hk m e hsh₀
    have hkh : g.hub ≠ k := by
      rintro rfl
      rw [Shows, if_pos ht] at hsh₀
      cases hsh₀
    have hother {q : Ref} {g' : Greenlet} (hq : v.living? q = some g') (hg' : g'.hub = k) :
        ∃ j, 0 < j ∧ w.object? q = some ⟨j, .greenlet g'⟩ := by
      obtain ⟨j, hj, hq⟩ := living?_eq_some_iff.mp hq
      rcases hold hq with ⟨-, -, rfl⟩ | ⟨-, hq⟩
      · exact absurd hg' hkh
      · exact ⟨j, hj, hq⟩
    refine ⟨by rw [hhub]; exact hst.shut, by rw [hhub, hb.homeAt]; exact hst.home, ?_⟩
    rw [hhub]
    refine fun hc => (hst.fine hc).alike (congrArg Hub.core (congrFun hhub k)) rfl (.inr rfl)
      (fun q g' hq hg' => ?_) (fun q g' p hq hg' hp => ?_) fun f hf => ?_
    · obtain ⟨j, hj, hq⟩ := hother hq hg'
      exact ⟨g', living?_eq_some_iff.mpr ⟨j, hj, hq⟩, .refl g'⟩
    · obtain ⟨j, -, hq⟩ := hother hq hg'
      simp only [scene]
      rw [hfd, if_neg (Nat.ne_of_lt (hlt hq hp))]
      exact .refl _
    · simp only [scene] at hf ⊢
      rw [hfd]
      split
      · rename_i hfs
        subst hfs
        have hcan := hf.2
        rw [fiberD_eq, Array.getElem?_eq_none (Nat.le_refl _)] at hcan
        cases hcan
      · exact hf

theorem Turning.equip {s : Fiber Task} (ho : w.Owned h (w.active - 1))
    (hst : Staging A none (w.equip r s)) :
    Turning A w h (w.hub h) (fun q => if r = q then (w.living? q).map fun g =>
        { g with run := none, fiber := some ⟨w.active, w.fibers.size⟩ } else w.living? q)
      (fun f => if f = w.fibers.size then s else w.fiberD f) (w.equip r s) := by
  refine ⟨hst, later_equip, .of_threads rfl rfl rfl, rfl, ho, rfl, ?_, funext fiberD_equip⟩
  funext q
  exact living?_modifyGreenlet (w := { w with fibers := w.fibers.push s }) ..

theorem Covered.share (hc : Covered hand w) (hw : w.Seated) (hf : f < w.fibers.size) :
    Covered (.fiber f :: hand) (w.modifyFiber f fun s => { s with handles := s.handles + 1 }) := by
  rw [modifyFiber_eq hw]
  refine hc.setControl hw fun x => ?_
  have h₁ := Control.claims_handles (k := w.control) (f := f)
    (g := fun s => { s with handles := s.handles + 1 }) (fun _ => rfl) x
  have h₂ := Control.backing_handles (k := w.control) (Array.getElem?_eq_getElem hf)
    (fun s => { s with handles := s.handles + 1 }) x
  by_cases hx : x = .fiber f
  · subst hx
    simp only [if_true, Control.backing, World.control, Array.getElem?_eq_getElem hf,
      Option.map_some, Option.getD_some, List.count_cons_self] at h₁ h₂ ⊢
    omega
  · rw [if_neg hx] at h₂
    rw [List.count_cons_of_ne fun h => hx h.symm]
    omega

theorem push_modify (a : Array (Fiber Task)) (s : Fiber Task) (u : Fiber Task → Fiber Task) :
    (a.push s).modify a.size u = a.push (u s) := by
  refine Array.ext_getElem? fun i => ?_
  simp only [Array.getElem?_modify, Array.getElem?_push]
  split
  · subst_vars
    simp
  · rw [if_neg fun h => ‹¬ _› h.symm, if_neg fun h => ‹¬ _› h.symm]

theorem modifyGreenlet_twice (u u' : Greenlet → Greenlet) :
    (w.modifyGreenlet r u).modifyGreenlet r u' = w.modifyGreenlet r fun g => u' (u g) := by
  unfold World.modifyGreenlet World.modifyObject
  dsimp only
  congr 1
  refine Array.ext_getElem? fun i => ?_
  simp only [Array.getElem?_modify]
  split
  · rcases w.heap[i]? with _ | _ | ⟨n, v⟩
    · rfl
    · rfl
    · cases v <;> rfl
  · rfl

theorem Covered.equip {run : RunFn} {args : Args Obj} {g : Greenlet} {discard : List Task}
    (hw : w.Seated) (hg : w.greenlet? r = some g) (hrun : g.run = some run) (hf : g.fiber = none)
    (hc : Covered (args.tokens ++ hand) w) : Covered (.fiber w.fibers.size :: hand) (w.equip r
      { phase := .fresh [.runBody run args, .entry h w.fibers.size] discard, handles := 2 }) := by
  have h₁ : Covered (run.tokens ++ (args.tokens ++ hand))
      (w.modifyGreenlet r fun g => { g with run := none }) := by
    refine hc.modifyGreenlet (fun k hk x => ?_) fun hn => by rw [hg] at hn; cases hn
    obtain rfl : k = g := Option.some.inj (hk.symm.trans hg)
    simp only [Greenlet.tokens, hrun, Option.map_some, Option.map_none, Option.getD_some,
      Option.getD_none, List.count_append, List.count_nil]
    omega
  have hw₁ : (w.modifyGreenlet r fun g => { g with run := none }).Seated := hw
  have he : w.equip r
      { phase := .fresh [.runBody run args, .entry h w.fibers.size] discard, handles := 2 } =
    ((((w.modifyGreenlet r fun g => { g with run := none }).setControl
      ((w.modifyGreenlet r fun g => { g with run := none }).control.create
        [.runBody run args, .entry h w.fibers.size] discard).2).modifyFiber w.fibers.size
          fun s => { s with handles := s.handles + 1 }).modifyGreenlet r
            fun g => { g with fiber := some ⟨w.active, w.fibers.size⟩ }) := by
    rw [setControl_control hw₁ (fun c => (c.create _ discard).2) rfl]
    refine Eq.trans ?_ (modifyGreenlet_twice (w := { w with fibers := ((w.fibers.push
      { phase := .fresh [.runBody run args, .entry h w.fibers.size] discard }).modify w.fibers.size
        (fun s => { s with handles := s.handles + 1 })) }) (fun g => { g with run := none })
          fun g => { g with fiber := some ⟨w.active, w.fibers.size⟩ }).symm
    rw [push_modify]
    rfl
  rw [he]
  have hg₁ : ∃ k, (w.modifyGreenlet r fun g => { g with run := none }).greenlet? r = some k ∧
      k.fiber = none := by
    rw [greenlet?_modifyGreenlet, if_pos rfl, hg]
    exact ⟨_, rfl, hf⟩
  have hsz : w.fibers.size = (w.modifyGreenlet r fun g => { g with run := none }).fibers.size := rfl
  rw [hsz]
  generalize w.modifyGreenlet r (fun g => { g with run := none }) = v at *
  have h₂ : Covered (.fiber v.fibers.size :: hand)
      (v.setControl (v.control.create [.runBody run args, .entry h v.fibers.size] discard).2) := by
    refine h₁.setControl hw₁ fun x => ?_
    have hcl := v.control.claims_create [.runBody run args, .entry h v.fibers.size] discard x
    have hbk := v.control.backing_create [.runBody run args, .entry h v.fibers.size] discard x
    have ht : (Task.tokensOf [.runBody run args, .entry h v.fibers.size]).count x =
        run.tokens.count x + args.tokens.count x := by simp [Task.tokens]
    rw [hcl, hbk, ht, List.count_append, List.count_append]
    by_cases hx : x = .fiber v.fibers.size
    · subst hx
      simp [Control.backing, World.control]
      omega
    · rw [if_neg (show ¬ x = .fiber v.control.fibers.size from hx),
        List.count_cons_of_ne fun h => hx h.symm]
      omega
  have hw₂ : (v.setControl (v.control.create [.runBody run args, .entry h v.fibers.size]
      discard).2).Seated := (seated_modifyThread _).mpr hw₁
  have hlt : v.fibers.size < (v.setControl (v.control.create
      [.runBody run args, .entry h v.fibers.size] discard).2).fibers.size := by
    change _ < (v.fibers.push _).size
    simp
  have hg₂ : ∃ k, (v.setControl (v.control.create [.runBody run args, .entry h v.fibers.size]
      discard).2).greenlet? r = some k ∧ k.fiber = none := hg₁
  generalize v.setControl (v.control.create [.runBody run args, .entry h v.fibers.size]
    discard).2 = u at *
  have h₃ := h₂.share hw₂ hlt
  refine h₃.modifyGreenlet (fun k hk x => ?_) fun hn => ?_
  · obtain ⟨k', hk', hf'⟩ := hg₂
    obtain rfl : k = k' := Option.some.inj (hk.symm.trans hk')
    simp only [Greenlet.tokens, hf', Option.map_some, Option.map_none, Option.getD_some,
      Option.getD_none, Pinned.tokens, List.count_append, List.count_cons, List.count_nil]
    omega
  · obtain ⟨k', hk', -⟩ := hg₂
    exact absurd (hn.symm.trans hk') (by simp)

namespace Poised

section

variable (hs : Poised A (.object target :: p.tokens) .idle ⟨.driving, .none⟩ .plain w)
  (ho : w.Owned h (w.active - 1)) (hb : w.Belongs target h)
include hs ho hb

theorem driveHome (hmain : (w.greenlet target).isMain = true) :
    Sound A (w.driveTarget h target p) := by
  obtain ⟨g, hg, hl, hh, hsu⟩ := hs.suits ho hb List.mem_cons_self nofun
  rw [greenlet_of_some hg] at hmain
  have htm : target = (w.hub h).main := hsu.main.mp hmain
  have hlive (_ : (w.scene h ⟨.driving, .none⟩ .plain).Fine A h) (k : Greenlet)
      (hk : w.living? target = some k) (_ : k.hub = h) : k.state ≠ .dead := by
    obtain rfl : k = g := Option.some.inj (hk.symm.trans hl)
    rcases (hsu.stackless hmain).2.2 with h | h <;> simp [h]
  obtain ⟨v, hv, hlv, ha, hpv⟩ := hs.registerSwitch ho hb (by simp) nofun nofun hlive
    (k := ⟨.arrived, .none⟩) (d := .plain) fun hfine G' hG => by
      subst htm
      exact hfine.arrive hG
  have ho' := ho.later hlv
  rw [← ha] at ho'
  unfold World.driveTarget
  simp only [greenlet_of_some hg, hmain, if_true, hv]
  exact hpv.go (l := [.drop (w.hub h).current]) (h := h) rfl rfl
    (by simp [Task.isFree, Task.isPlain]) ho' (.inl rfl) ⟨ho', hb.later hlv⟩ fun k => by
      simp [Task.tokens, List.count_cons]

theorem driveOn {g : Greenlet} (hg : w.greenlet? target = some g)
    (hf : g.fiber = some ⟨w.active, f⟩) : Sound A
      (((w.setControl (w.control.share f)).modifyGreenlet target fun g =>
        { g with inbox := some p }).push
          ((g.inbox.map Task.dropPayload).getD [] ++ [.driveRegister h target f])) := by
  have hact : (w.hub h).thread = w.active := ho.2.trans (Nat.sub_add_cancel hs.seated.1)
  have hlt : f < w.fibers.size := by
    obtain ⟨n, -, hd⟩ := hs.staging.decent hg
    exact (hd.saved _ hf).1
  have hcov := hs.covered.share hs.seated hlt
  rw [show w.setControl (w.control.share f) = w.modifyFiber f fun s =>
    { s with handles := s.handles + 1 } from (modifyFiber_eq hs.seated _).symm]
  obtain ⟨F', hF, h₁⟩ := (Turning.start hs.staging ho).modifyFiber (f := f)
    (u := fun s => { s with handles := s.handles + 1 }) (fun s => ⟨id, id, id⟩)
    fun s => ⟨rfl, rfl, rfl, rfl, rfl⟩
  have hl₁ : Later w (w.modifyFiber f fun s => { s with handles := s.handles + 1 }) := h₁.later
  have hg₁ : (w.modifyFiber f fun s => { s with handles := s.handles + 1 }).greenlet? target =
    some g := hg
  have hw₁ := h₁.seated
  have ha₁ : (w.modifyFiber f fun s => { s with handles := s.handles + 1 }).thread = w.thread := rfl
  generalize w.modifyFiber f (fun s => { s with handles := s.handles + 1 }) = v at *
  have h₂ := h₁.restate (u := fun g => { g with inbox := some p }) (fun _ => rfl) (fun _ h => h)
    (fun _ h => h) (hb.later hl₁)
  have hcov₂ : Covered ((g.inbox.map Payload.tokens).getD [] ++ [.object target, .fiber f])
      (v.modifyGreenlet target fun g => { g with inbox := some p }) := by
    refine hcov.modifyGreenlet (fun k hk x => ?_) fun hn => by rw [hg₁] at hn; cases hn
    obtain rfl : k = g := Option.some.inj (hk.symm.trans hg₁)
    simp only [Greenlet.tokens, Option.map_some, Option.getD_some, List.count_append,
      List.count_cons, List.count_nil]
    omega
  have hstk : (v.modifyGreenlet target fun g => { g with inbox := some p }).thread = v.thread := rfl
  have hst : Staging A (some (⟨.ready target f, .none⟩, Item.edge
      (((g.inbox.map Task.dropPayload).getD [] ++ [Task.driveRegister h target f]).map .task ++
        (v.modifyGreenlet target fun g => { g with inbox := some p }).thread.stack)))
      (v.modifyGreenlet target fun g => { g with inbox := some p }) := by
    refine h₂.take hs.staging (by rintro _ ⟨⟩) (by rintro ⟨⟩) ⟨rfl, rfl⟩ fun _ hfine => ?_
    refine hfine.ready (p := p) (fun k hk => ?_) hF
      (.modify (fun k _ => ⟨by simp, rfl⟩) fun q k hq => by simp [hq])
    obtain rfl : k = g := Option.some.inj ((greenlet?_of_living hk).symm.trans hg)
    rw [hf, ← hact]
    rfl
  have hp := hs.turn hst hcov₂ h₂.later h₂.beside.active (by rw [hstk, ha₁])
  refine hp.go (h := h) rfl rfl (fun t ht => .inl ?_) h₂.mine (.inr rfl)
    ⟨h₂.mine, hb.later h₂.later⟩ fun k => ?_
  · cases hi : g.inbox with
    | none => simp [hi] at ht
    | some q =>
      simp only [hi, Option.map_some, Option.getD_some] at ht
      exact List.all_eq_true.mp (Task.all_isFree_dropPayload q) t ht
  · cases g.inbox <;> simp [Task.tokens, List.count_cons]

theorem driveKill {g : Greenlet} (hg : w.greenlet? target = some g) (hstate : g.state = .unstarted)
    (message : String) : Sound A
      (((w.debug message).modifyGreenlet target fun g => { g with state := .dead, run := none }).push
        ((g.run.map Task.dropRun).getD [] ++ [.driveKilled h target p])) := by
  obtain ⟨g', hg', hl, hh, hsu⟩ := hs.suits ho hb List.mem_cons_self (by rintro ⟨⟩)
  obtain rfl : g' = g := Option.some.inj (hg'.symm.trans hg)
  have hrun : g'.run ≠ none := fun hr => by cases hsu.entering hstate hr
  have hfib : g'.fiber = none := (hsu.run hrun).2
  have hcur : target ≠ (w.hub h).core.current := fun hc => by
    rcases hsu.current hc with h | h <;> rw [hstate] at h <;> cases h
  have hmain : target ≠ (w.hub h).core.main := fun hc => by
    rcases (hsu.stackless (hsu.main.mpr hc)).2.2 with h | h <;> rw [hstate] at h <;> cases h
  have hq : Quiet w (w.debug message) := .write _ _
  have h₁ := (Turning.start hs.staging ho).quiet hq
  have hcov₁ := hs.covered.quiet hq
  have hg₁ : (w.debug message).greenlet? target = some g' := hg
  have ht₁ : (w.debug message).thread = w.thread := rfl
  generalize w.debug message = v at *
  have hl₁ : Later v (v.modifyGreenlet target fun g => { g with state := .dead, run := none }) :=
    .modifyGreenlet target fun _ _ => ⟨rfl, rfl, rfl, rfl, fun _ => rfl, fun _ => rfl⟩
  have h₂ := h₁.modifyGreenlet (u := fun g => { g with state := .dead, run := none })
    (hb.later h₁.later) hl₁ fun n k hk _ => by
      have hd := h₁.staging.greenlets target n k hk
      exact ⟨rfl, ⟨hd.hub, hd.thread, fun q hq => (hd.parent q hq).later hl₁,
        fun hm => ⟨rfl, (hd.main hm).2.1, by simp⟩, fun hf => ⟨rfl, (hd.spent hf).2⟩, hd.buried,
        hd.shut, fun _ _ _ => ⟨rfl, rfl⟩, hd.listed,
        fun q hq => ⟨(hd.saved q hq).1, (hd.saved q hq).2.later hl₁⟩⟩, .inl rfl⟩
  have hcov₂ : Covered ((g'.run.map RunFn.tokens).getD [] ++ .object target :: p.tokens)
      (v.modifyGreenlet target fun g => { g with state := .dead, run := none }) := by
    refine hcov₁.modifyGreenlet (fun k hk x => ?_) fun hn => by rw [hg₁] at hn; cases hn
    obtain rfl : k = g' := Option.some.inj (hk.symm.trans hg₁)
    simp only [Greenlet.tokens, Option.map_none, Option.getD_none, List.count_append,
      List.count_cons, List.count_nil]
    omega
  have hst : Staging A (some (⟨.driving, .none⟩, .plain))
      (v.modifyGreenlet target fun g => { g with state := .dead, run := none }) := by
    refine h₂.take hs.staging (by rintro _ ⟨⟩) (by rintro ⟨⟩) ⟨rfl, rfl⟩ fun _ hfine => ?_
    refine hfine.bury (t := target) hcur hmain (by rintro _ ⟨⟩) (fun _ _ _ _ _ _ _ => rfl) (fun _ h => h)
      (.modify (fun k hk => ?_) fun q k hq => by simp [hq])
    obtain rfl : k = g' := Option.some.inj (hk.symm.trans hl)
    exact ⟨by simp [hfib], rfl⟩
  have hstk : (v.modifyGreenlet target fun g => { g with state := .dead, run := none }).thread =
    v.thread := rfl
  have hp := hs.turn hst hcov₂ h₂.later h₂.beside.active (by rw [hstk, ht₁])
  refine hp.go (h := h) rfl rfl (fun t ht => .inl ?_) h₂.mine (.inl rfl)
    ⟨h₂.mine, hb.later h₂.later⟩ fun k => ?_
  · cases hi : g'.run with
    | none => simp [hi] at ht
    | some run =>
      simp only [hi, Option.map_some, Option.getD_some] at ht
      exact List.all_eq_true.mp (Task.all_isFree_dropRun run) t ht
  · cases g'.run <;> simp [Task.tokens, List.count_cons]

theorem driveStart {g : Greenlet} {run : RunFn} {args : Args Obj}
    (hg : w.greenlet? target = some g) (hrun : g.run = some run) (hpay : p = .ok args) : Sound A
      ((((w.setControl ((w.control.create [.runBody run args, .entry h w.fibers.size]
        (Task.dropRun run ++ Task.dropArgs args)).2.share w.fibers.size)).modifyGreenlet target
          fun g => { g with run := none, fiber := some ⟨w.active, w.fibers.size⟩ }).modifyStats h
            fun s => { s with started := s.started + 1 }).push
              [.driveRegister h target w.fibers.size]) := by
  obtain ⟨g', hg', hl, hh, hsu⟩ := hs.suits ho hb List.mem_cons_self (by rintro ⟨⟩)
  obtain rfl : g' = g := Option.some.inj (hg'.symm.trans hg)
  subst hpay
  have hact : (w.hub h).thread = w.active := ho.2.trans (Nat.sub_add_cancel hs.seated.1)
  have hfib : g'.fiber = none := (hsu.run (by simp [hrun])).2
  obtain ⟨n, hn, hob⟩ := living?_eq_some_iff.mp hl
  have hd := hs.staging.greenlets target n g' hob
  have hmain : g'.isMain = false := by
    by_contra hm
    rw [(hsu.stackless (by simpa using hm)).1] at hrun
    cases hrun
  have hopen := (hs.staging.busy ho (by rintro ⟨⟩)).1
  subst hh
  obtain ⟨s, hsd⟩ : ∃ s : Fiber Task, s = { phase := (.fresh [.runBody run args,
    .entry g'.hub w.fibers.size] (Task.dropRun run ++ Task.dropArgs args)), handles := 2 } :=
    ⟨_, rfl⟩
  have hst₀ : Staging A none (w.equip target s) :=
    hs.staging.exempt.1.equip hob hn hfib hmain hopen hact (hsd ▸ ⟨⟨run, args, rfl⟩, by
      rw [List.all_append, Task.all_isPlain_dropRun, Task.all_isPlain_dropArgs]; rfl,
      fun x => by simp [Task.tokens]⟩)
  have hcov₀ : Covered (args.tokens ++ [.object target]) w := hs.covered.trade fun x => by
    simp only [Payload.tokens, List.count_append, List.count_cons, List.count_nil]
    omega
  have hcov : Covered [.fiber w.fibers.size, .object target] (w.equip target s) :=
    hsd ▸ .equip hs.seated hg hrun hfib hcov₀
  have h₂ := (Turning.equip (h := g'.hub) ho hst₀).modifyHub
    (u := fun s => { s with stats := { s.stats with started := s.stats.started + 1 } })
    (fun _ => ⟨rfl, rfl, rfl, rfl⟩) fun o => { o with }
  have hst : Staging A (some (⟨.ready target w.fibers.size, .none⟩, .entering target))
      ((w.equip target s).modifyHub g'.hub fun s =>
        { s with stats := { s.stats with started := s.stats.started + 1 } }) := by
    refine h₂.take hs.staging (by rintro _ ⟨⟩) (by rintro ⟨⟩) ⟨rfl, rfl⟩ fun _ hfine => ?_
    refine hfine.start (t := target) (f := w.fibers.size) (fun k hk => ?_) ?_
      (fun f hf => if_neg hf) (by rw [if_pos rfl, hsd]) (by simp [hsd])
      (by simp [hsd])
      (.modify (fun k _ => ⟨by rw [if_pos rfl, ← hact]; rfl, rfl⟩) fun q k hq => if_neg hq)
    · obtain rfl : k = g' := Option.some.inj (hk.symm.trans hl)
      simp [hrun]
    · rw [fiberD_eq, Array.getElem?_eq_none (Nat.le_refl _)]
      rfl
  have hcov' := hcov.modifyHub_of_eq (h := g'.hub)
    (f := fun s => { s with stats := { s.stats with started := s.stats.started + 1 } })
    fun _ => ⟨rfl, rfl, rfl⟩
  have he : (w.setControl ((w.control.create [.runBody run args, .entry g'.hub w.fibers.size]
      (Task.dropRun run ++ Task.dropArgs args)).2.share w.fibers.size)).modifyGreenlet target
        (fun g => { g with run := none, fiber := some ⟨w.active, w.fibers.size⟩ }) =
      w.equip target s := by
    rw [setControl_control hs.seated (fun c => (c.create [.runBody run args, .entry g'.hub
      w.fibers.size] (Task.dropRun run ++ Task.dropArgs args)).2.share w.fibers.size) rfl]
    have hfs := push_modify w.fibers { phase := (.fresh [.runBody run args, .entry g'.hub
      w.fibers.size] (Task.dropRun run ++ Task.dropArgs args)) } fun s =>
        { s with handles := s.handles + 1 }
    subst hsd
    exact congrArg (fun a : Array (Fiber Task) => { w with fibers := a }.modifyGreenlet target
      fun g => { g with run := none, fiber := some ⟨w.active, w.fibers.size⟩ }) hfs
  rw [he]
  exact (hs.turn hst hcov' h₂.later h₂.beside.active rfl).go (l := []) (h := g'.hub)
    (t := .driveRegister g'.hub target w.fibers.size) rfl rfl (by simp) h₂.mine (.inr rfl)
    ⟨h₂.mine, hb.later h₂.later⟩ fun k => by simp [Task.tokens, List.count_cons]; omega

theorem driveRefuse {g : Greenlet} (hg : w.greenlet? target = some g) (hrun : g.run = none) :
    Sound A ((w.modifyGreenlet target fun g => { g with run := none }).push
      ((g.run.map Task.dropRun).getD [] ++ Task.dropPayload p ++
        [.driveRefused h target (.deadTarget g.id)])) := by
  rw [modifyGreenlet_eq_self fun k hk => ?_, hrun]
  · refine hs.go (h := h) rfl rfl (fun t ht => .inl ?_) ho (.inl rfl) ⟨ho, hb⟩ fun k => ?_
    · exact List.all_eq_true.mp (Task.all_isFree_dropPayload p) t (by simpa using ht)
    · simp [Task.tokens, List.count_cons]
  · obtain rfl : k = g := Option.some.inj (hk.symm.trans hg)
    rw [← hrun]

end

end Poised

namespace Sound

theorem driveTarget (hs : Sound A w)
    (hstk : w.thread.stack = .task (.driveTarget h target p) :: below) :
    Sound A ((w.setStack below).driveTarget h target p) := by
  obtain ⟨m₀, m, hi, hp, ho, hb⟩ := hs.poise hstk
  obtain ⟨rfl, rfl⟩ := Mode.of_step_ground hi (g := .driving) rfl
  generalize w.setStack below = v at *
  have hp' : Poised A (.object target :: p.tokens) .idle ⟨.driving, .none⟩ .plain v := hp
  by_cases hmain : (v.greenlet target).isMain = true
  · exact hp'.driveHome ho hb hmain
  obtain ⟨g, hg, hl, hh, hsu⟩ := hp'.suits ho hb List.mem_cons_self nofun
  rw [greenlet_of_some hg] at hmain
  unfold World.driveTarget
  dsimp only
  rw [greenlet_of_some hg, if_neg hmain]
  split
  · exact hp'.driveKill ho hb hg ‹_› _
  · rename_i p _ _ hne
    cases hf : g.fiber.bind (·.get? v.active) with
    | some f =>
      obtain ⟨q, hq, hv⟩ := Option.bind_eq_some_iff.mp hf
      obtain ⟨hown, rfl⟩ := Pinned.get?_eq_some_iff.mp hv
      exact hp'.driveOn ho hb hg (by rw [hq, ← hown])
    | none =>
      cases hrun : g.run with
      | none =>
        have := hp'.driveRefuse ho hb hg hrun
        rw [hrun] at this
        exact this
      | some run =>
        cases p with
        | ok args => exact hp'.driveStart ho hb hg hrun rfl
        | error e => exact absurd rfl (hne e (hsu.run (by simp [hrun])).1)

theorem driveRegister (hs : Sound A w)
    (hstk : w.thread.stack = .task (.driveRegister h target f) :: below) :
    Sound A ((w.setStack below).driveRegister h target f) := by
  obtain ⟨m₀, m, hi, hp, ho, hb⟩ := hs.poise hstk
  obtain ⟨rfl, rfl⟩ := Mode.of_step_ground hi (g := .ready target f) rfl
  generalize w.setStack below = v at *
  have hlive (hfine : (v.scene h ⟨.ready target f, .none⟩ (.entering target)).Fine A h)
      (g : Greenlet) (hg : v.living? target = some g) (hh : g.hub = h) : g.state ≠ .dead := by
    intro hd
    have hsu := hfine.suits target g hg hh
    have hfib := (hsu.turn f rfl).1
    rw [(hsu.dead hd).2] at hfib
    cases hfib
  have hp' : Poised A [.object target, .fiber f] .idle ⟨.ready target f, .none⟩
    (.entering target) v := hp
  obtain ⟨u, hu, hl, ha, hpu⟩ := hp'.registerSwitch ho hb (by simp) nofun nofun hlive
    fun hfine G' hG => hfine.register (e := .plain) hG
  have ho' := ho.later hl
  rw [← ha] at ho'
  unfold World.driveRegister
  rw [hu]
  exact hpu.go (l := [.drop (v.hub h).current]) (h := h) rfl rfl
    (by simp [Task.isFree, Task.isPlain]) ho' (.inl rfl) ⟨ho', hb.later hl⟩ fun k => by
      simp [Task.tokens, List.count_cons]

end Sound

end World

end Switchyard
