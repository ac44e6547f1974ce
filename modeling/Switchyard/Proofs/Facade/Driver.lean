import Switchyard.Proofs.Facade.Faults

/-!
# The driver

A switch from the original stack, and what a fiber posts, is carried out by the driver. It gives
each greenlet its turn by one step after the other; between them destructors run.
-/

namespace Switchyard

open World

namespace Mode

theorem upon_idle {us : List Task} {t : Task} {g : Ground} (hg : t.role.ground? = some g)
    (hus : ∀ u ∈ us, g.isOpen = true ∧ u.role = .code) :
    idle.upon ((us ++ [t]).map .task) = some ⟨g, .none⟩ := by
  have ht : step (.task t) idle = some ⟨g, .none⟩ := by
    cases hr : t.role <;> simp only [Role.ground?, hr, reduceCtorEq, Option.some.injEq] at hg <;>
      subst hg <;> simp [step, Ground.step, hr, idle]
  rw [List.map_append, upon_append]
  simp only [List.map_cons, List.map_nil, upon_cons, upon_nil, Option.bind_some, ht]
  cases us with
  | nil => rfl
  | cons u us =>
    exact upon_code (hus u List.mem_cons_self).1 fun v hv => .inl (hus v hv).2

end Mode

namespace World

variable {A : Prop} {w w' : World} {m m₀ m' : Mode} {e e' : Edge} {t : Task}
  {below : List (Item Task)} {hand hand' : List Token} {h : HubId} {f : FiberId} {p : Payload}
  {r : Ref} {g : Ground}

/-- A task has been taken off the stack of the active thread, which stands at `m₀` now. Its hub is
as the task was to find it, at `m`. -/
structure Poised (A : Prop) (hand : List Token) (m₀ m : Mode) (e : Edge) (w : World) : Prop where
  staging : Staging A (some (m, e)) w
  covered : Covered hand w
  mode : Mode.of w.thread.stack = some m₀
  filed : Item.Filed w (w.active - 1) w.thread.stack

theorem Sound.poise (hs : Sound A w) (ht : w.thread.stack = .task t :: below) : ∃ m₀ m,
    Mode.step (.task t) m₀ = some m ∧
      Poised A t.tokens m₀ m (Item.edge (.task t :: below)) (w.setStack below) ∧
      t.Filed (w.setStack below) ((w.setStack below).active - 1)
        (w.setStack below).thread.stack := by
  obtain ⟨m₀, m, h₀, hi, hst, hc, hf, hft⟩ := hs.pop ht
  have hstk := stack_setStack hs.seated below
  exact ⟨m₀, m, hi, ⟨hst, hc, by rw [hstk]; exact h₀, by rw [hstk]; exact hf⟩,
    by rw [hstk]; exact hft⟩

namespace Poised

theorem seated (hs : Poised A hand m₀ m e w) : w.Seated := hs.staging.seated

theorem steady (hs : Poised A hand m m .plain w) : Steady A hand m w :=
  ⟨hs.staging, hs.covered, hs.mode, hs.filed⟩

theorem turn (hs : Poised A hand m₀ m e w) (hst : Staging A (some (m', e')) w')
    (hc : Covered hand' w') (hl : Later w w') (ha : w'.active = w.active)
    (hstk : w'.thread.stack = w.thread.stack) : Poised A hand' m₀ m' e' w' :=
  ⟨hst, hc, by rw [hstk]; exact hs.mode, by rw [hstk, ha]; exact hs.filed.later hl⟩

theorem push (hs : Poised A hand m₀ m e w) {l : List Task}
    (hm : m₀.upon (l.map .task) = some m)
    (he : e = .plain ∨ e = Item.edge (l.map .task ++ w.thread.stack))
    (hf : Item.Filed w (w.active - 1) (l.map .task ++ w.thread.stack))
    (hc : ∀ k, (Task.tokensOf l).count k ≤ hand.count k) : Sound A (w.push l) := by
  have hstk := stack_push hs.seated l
  have hst : Staging A (some (m, Item.edge (w.push l).thread.stack)) (w.push l) := by
    rcases he with rfl | rfl
    · exact (hs.staging.push l).edge _
    · rw [hstk]
      exact hs.staging.push l
  refine ⟨⟨m, ?_, hst⟩, hs.covered.push hs.seated fun k => hc k, ?_⟩
  · rw [hstk, Mode.of_append, hs.mode]
    exact hm
  · rw [hstk]
    exact hf.later (.of_eq rfl rfl rfl)

theorem go (hs : Poised A hand .idle ⟨g, .none⟩ e w) {l : List Task} {t : Task}
    (hg : t.role.ground? = some g) (hcalm : g.isCalm = true)
    (hus : ∀ u ∈ l, u.isFree = true ∨ u = .drain h)
    (ho : w.Owned h (w.active - 1))
    (he : e = .plain ∨ e = Item.edge ((l ++ [t]).map .task ++ w.thread.stack))
    (ht : t.Filed w (w.active - 1) w.thread.stack)
    (hc : ∀ k, (Task.tokensOf (l ++ [t])).count k ≤ hand.count k) :
    Sound A (w.push (l ++ [t])) := by
  have hopen : g.isOpen = true := by cases g <;> first | rfl | cases hcalm
  refine hs.push (Mode.upon_idle hg fun u hu => ⟨hopen, ?_⟩) he ?_ hc
  · rcases hus u hu with h | rfl
    · exact Task.role_of_isFree h
    · rfl
  · rw [List.map_append, List.append_assoc]
    suffices hf : Item.Filed w (w.active - 1) (l.map .task) from hf.append ⟨ht, hs.filed⟩
    clear he hc
    induction l with
    | nil => trivial
    | cons u l ih =>
      refine ⟨?_, ih fun v hv => hus v (List.mem_cons_of_mem u hv)⟩
      rcases hus u List.mem_cons_self with h | rfl
      · cases u <;> trivial
      · exact ho

theorem effect (hs : Poised A hand m m .plain w) (hm : m.isOpen = true)
    (hns : ∀ r, .sole r ∉ hand) (he : Effect .full hand w [] w') : Sound A w' := by
  obtain ⟨m', -, h⟩ := Steady.effect he hs.steady hm hns
  exact h.sound

theorem suits {target : Ref} (hs : Poised A hand m₀ m e w) (ho : w.Owned h (w.active - 1))
    (hb : w.Belongs target h) (hr : .object target ∈ hand) (hm : m ≠ .idle) :
    ∃ g, w.greenlet? target = some g ∧ w.living? target = some g ∧ g.hub = h ∧
      (w.scene h m e).Suits A target g := by
  obtain ⟨o, hob, hpos⟩ := hs.covered.object?_of_mem hr
  obtain ⟨g, hv, hh⟩ := hb.2 o hob
  obtain ⟨n, v⟩ := o
  obtain rfl : v = .greenlet g := hv
  have hl : w.living? target = some g := living?_eq_some_iff.mpr ⟨n, hpos, hob⟩
  exact ⟨g, greenlet?_of_living hl, hl, hh, (hs.staging.busy ho hm).2.suits target g hl hh⟩

end Poised

/-- Since `w` the hub `h` of the active thread is on its way to a turn: it is `s` now, its
greenlets are `G` and the fibers are `F`. -/
structure Turning (A : Prop) (w : World) (h : HubId) (s : Hub) (G : Ref → Option Greenlet)
    (F : FiberId → Fiber Task) (v : World) : Prop where
  staging : Staging A none v
  later : Later w v
  beside : Beside w v
  size : v.hubs.size = w.hubs.size
  owned : w.Owned h (w.active - 1)
  hub : v.hub h = s
  living : v.living? = G
  fiberD : v.fiberD = F

namespace Turning

variable {v v' : World} {s : Hub} {G : Ref → Option Greenlet} {F : FiberId → Fiber Task}

theorem start (hs : Staging A (some (m, e)) w) (ho : w.Owned h (w.active - 1)) :
    Turning A w h (w.hub h) w.living? w.fiberD w :=
  ⟨hs.exempt.1, .refl w, .of_threads rfl rfl rfl, rfl, ho, rfl, rfl, rfl⟩

section

variable (ht : Turning A w h s G F v)
include ht

theorem seated : v.Seated := ht.staging.seated

theorem lt_size : h < v.hubs.size := ht.size.symm ▸ ht.owned.1

theorem mine : v.Owned h (v.active - 1) := ht.beside.active ▸ ht.owned.later ht.later

theorem thread_eq : (v.hub h).thread = v.active :=
  ht.mine.2.trans (Nat.sub_add_cancel ht.seated.1)

theorem modifyHub {u : Hub → Hub} (hu : ∀ s, (u s).thread = s.thread ∧ (u s).main = s.main ∧
      (u s).closed = s.closed ∧ (u s).nodes = s.nodes)
    (hord : v.Orderly h s → v.Orderly h (u s)) : Turning A w h (u s) G F (v.modifyHub h u) := by
  have hh := hub_modifyHub h h u ht.lt_size
  rw [if_pos rfl, ht.hub] at hh
  refine ⟨ht.staging.modifyHub (fun s => ⟨(hu s).1, (hu s).2.1, (hu s).2.2.1⟩) ?_
    (fun _ _ _ _ _ hr => by rw [(hu _).2.2.2]; exact hr) (.inl ⟨rfl, ht.thread_eq⟩),
    ht.later.trans (.modifyHub' h fun s => ⟨(hu s).1, (hu s).2.1, (hu s).2.2.1⟩),
    ht.beside.trans (.modifyHub h u), ?_, ht.owned, hh, ht.living, ht.fiberD⟩
  · rw [ht.hub]
    exact hord
  · rw [← ht.size]
    simp [World.modifyHub]

theorem retain (hr : 0 < v.count r) : Turning A w h s G F (v.retain r) := by
  refine ⟨ht.staging.retain hr, ht.later.trans (.retain r),
    ht.beside.trans (.of_threads rfl rfl rfl), ht.size, ht.owned, ht.hub, ?_, ht.fiberD⟩
  rw [← ht.living]
  funext q
  unfold living? World.retain
  rw [object?_modifyObject]
  split
  · rename_i he
    subst he
    cases ho : v.object? r with
    | none => rfl
    | some o =>
      rw [count_of_some ho] at hr
      simp [hr]
  · rfl

theorem modifyGreenlet {u : Greenlet → Greenlet} (hb : v.Belongs r h)
    (hl : Later v (v.modifyGreenlet r u))
    (hu : ∀ n g, v.object? r = some ⟨n, .greenlet g⟩ → g.hub = h → (u g).hub = g.hub ∧
      (v.modifyGreenlet r u).Decent r n (u g) ∧
      ((u g).fiber = g.fiber ∨ (u g).fiber = none ∧ ∀ p, g.fiber = some p →
        (F p.value).isOver = true)) :
    Turning A w h s (fun q => if r = q then (G q).map u else G q) F (v.modifyGreenlet r u) := by
  have hg {n : Nat} {g : Greenlet} (ho : v.object? r = some ⟨n, .greenlet g⟩) : g.hub = h := by
    obtain ⟨g', hv, hh⟩ := hb.2 _ ho
    cases hv
    exact hh
  refine ⟨ht.staging.modifyGreenlet hl fun n g ho => ?_, ht.later.trans hl,
    ht.beside.trans (.modifyGreenlet r u), ht.size, ht.owned, ht.hub, ?_, ht.fiberD⟩
  · obtain ⟨h₁, h₂, h₃⟩ := hu n g ho (hg ho)
    rw [ht.fiberD]
    exact ⟨h₁, h₂, h₃, fun _ => .inl ⟨rfl, hg ho ▸ ht.thread_eq⟩⟩
  · funext q
    rw [living?_modifyGreenlet, ht.living]

theorem restate {u : Greenlet → Greenlet}
    (hu : ∀ g, u g = { g with state := (u g).state, inbox := (u g).inbox })
    (hd : ∀ g, g.state = .dead → (u g).state = .dead)
    (hn : ∀ g, (u g).state = .unstarted → g.state = .unstarted) (hb : v.Belongs r h) :
    Turning A w h s (fun q => if r = q then (G q).map u else G q) F (v.modifyGreenlet r u) := by
  have hsame (g : Greenlet) : (u g).id = g.id ∧ (u g).thread = g.thread ∧
      (u g).isMain = g.isMain ∧ (u g).hub = g.hub ∧ (u g).run = g.run ∧ (u g).fiber = g.fiber ∧
      (u g).parent = g.parent := by
    rw [hu g]
    exact ⟨rfl, rfl, rfl, rfl, rfl, rfl, rfl⟩
  have hl : Later v (v.modifyGreenlet r u) := .modifyGreenlet r fun g _ => by
    obtain ⟨h₁, h₂, h₃, h₄, h₅, -, -⟩ := hsame g
    exact ⟨h₁, h₂, h₃, h₄, hd g, fun h => h₅.trans h⟩
  refine ht.modifyGreenlet hb hl fun n g ho hh => ?_
  obtain ⟨-, h₂, h₃, h₄, h₅, h₆, h₇⟩ := hsame g
  have hdec := ht.staging.greenlets r n g ho
  refine ⟨h₄, ⟨?_, ?_, ?_, ?_, ?_, ?_, ?_, ?_, ?_, ?_⟩, .inl h₆⟩
  · rw [h₄]; exact hdec.hub
  · rw [h₂, h₄]; exact hdec.thread
  · rw [h₇, h₄]; exact fun p hp => (hdec.parent p hp).later hl
  · rw [h₃, h₅, h₇]
    exact fun hm => ⟨(hdec.main hm).1, (hdec.main hm).2.1, mt (hn g) (hdec.main hm).2.2⟩
  · rw [h₆, h₅, h₃]; exact hdec.spent
  · rw [h₆]; exact hdec.buried
  · rw [h₄, h₆]; exact hdec.shut
  · rw [h₄, h₃, h₅]
    exact fun hc hm hp => ⟨hd g (hdec.ended hc hm hp).1, (hdec.ended hc hm hp).2⟩
  · rw [h₄, h₃]; exact hdec.listed
  · rw [h₆, h₄]; exact fun p hp => ⟨(hdec.saved p hp).1, (hdec.saved p hp).2.later hl⟩

theorem modifyFiber {u : Fiber Task → Fiber Task} (hl : ∀ s : Fiber Task, s.Later (u s))
    (hu : ∀ s : Fiber Task, s.Alike (u s)) : ∃ F', (∀ i, (F i).Alike (F' i)) ∧
      Turning A w h s G F' (v.modifyFiber f u) := by
  refine ⟨(v.modifyFiber f u).fiberD, fun i => ?_, ht.staging.modifyFiber hl (.inl hu),
    ht.later.trans (.modifyFiber f hl), ht.beside.trans (.modifyFiber f u), ht.size, ht.owned,
    ht.hub, ht.living, rfl⟩
  rw [← ht.fiberD, fiberD_eq, fiberD_eq, World.modifyFiber, Array.getElem?_modify]
  split
  · cases v.fibers[i]? with
    | none => exact .refl _
    | some s => exact hu s
  · exact .refl _

theorem quiet (hq : Quiet v v') : Turning A w h s G F v' := by
  refine ⟨ht.staging.quiet hq, ht.later.trans (.of_quiet hq), ht.beside.trans (.of_quiet hq), ?_,
    ht.owned, ?_, ?_, ?_⟩
  · rw [hq.hubs, ht.size]
  · rw [World.hub, hq.hubs, ← World.hub, ht.hub]
  · rw [← ht.living]
    funext q
    rw [living?, hq.object?, ← living?]
  · rw [← ht.fiberD]
    funext f
    rw [fiberD_eq, hq.fibers, ← fiberD_eq]

theorem take (hs : Staging A (some (m, e)) w) (he : ∀ k, e ≠ .closing k)
    (hm : m = .idle → (w.hub h).closed = false)
    (hth : s.thread = (w.hub h).thread ∧ s.closed = (w.hub h).closed)
    (hf : (w.hub h).closed = false → (w.scene h m e).Fine A h →
      Scene.Fine A h ⟨s.core, G, F, m', e'⟩) : Staging A (some (m', e')) v := by
  refine hs.shift ht.staging ht.beside ht.size ht.owned (by rw [ht.hub, hth.1])
    (by rw [ht.hub, hth.2]) he (fun hc hi => by rw [hm hi] at hc; cases hc) fun hc hfine => ?_
  rw [scene, ht.hub, ht.living, ht.fiberD]
  exact hf hc hfine

end

end Turning

theorem Staging.undisposed (hs : Staging A (some (m, e)) w) (ho : w.Owned h (w.active - 1))
    (hm : m ≠ .idle) : (w.hub h).disposed = false := by
  by_contra hd
  have := (hs.hubs h ho.1).disposed (by simpa using hd)
  rw [(hs.busy ho hm).1] at this
  cases this

theorem Staging.belongs_parent {x : Option (Mode × Edge)} (hs : Staging A x w) {q : Ref}
    (hr : w.Belongs r h) (hq : w.parent r = some q) : w.Belongs q h ∧ 0 < w.spare q := by
  refine ⟨?_, spare_of_parent hq⟩
  unfold World.parent at hq
  cases hg : w.greenlet? r with
  | none =>
    rw [greenlet_of_none hg] at hq
    cases hq
  | some k =>
    rw [greenlet_of_some hg] at hq
    obtain ⟨n, hob, hd⟩ := hs.decent hg
    obtain ⟨k', hv, hk⟩ := hr.2 _ hob
    cases hv
    exact hk ▸ hd.parent q hq

theorem Staging.belongs_ancestor {x : Option (Mode × Edge)} (hs : Staging A x w) {q : Ref}
    {pick : Ref → Bool} (n : Nat) (hr : w.Belongs r h)
    (hq : w.findAncestor pick n r = .ok (some q)) : w.Belongs q h ∧ 0 < w.spare q := by
  induction n generalizing r with
  | zero =>
    unfold findAncestor at hq
    split at hq <;> cases hq
  | succ n ih =>
    unfold findAncestor at hq
    split at hq
    · cases hq
    · rename_i u hu
      obtain ⟨hb, hsp⟩ := hs.belongs_parent hr hu
      split at hq
      · cases hq
        exact ⟨hb, hsp⟩
      · exact ih hb hq

theorem Poised.nextLive {target : Ref} (hs : Poised A hand m₀ m .plain w)
    (ho : w.Owned h (w.active - 1)) (hb : w.Belongs target h) (hm : m ≠ .idle)
    (hns : ∀ r, .sole r ∉ hand) : ∃ next w', w.nextLive h target = (next, w') ∧
      Poised A (.object next :: hand) m₀ m .plain w' ∧ Later w w' ∧ w'.active = w.active ∧
      w'.Belongs next h := by
  obtain ⟨next, v, hq, hnb, hsp, he⟩ : ∃ next v, Quiet w v ∧ w.Belongs next h ∧
      0 < w.spare next ∧ w.nextLive h target = (next, v.retain next) := by
    have hmain := (spare_of_main ho.1 (hs.staging.undisposed ho hm)).1
    have hbm := (hs.staging.hubs h ho.1).main
    unfold World.nextLive
    dsimp only
    split
    · rename_i found hf
      cases found with
      | none => exact ⟨_, w, .refl w, hbm, hmain, rfl⟩
      | some q =>
        have hfa : w.findAncestor (fun q => !(w.greenlet q).state.isDead) w.depthLimit target =
            .ok (some q) := by
          unfold ancestor ancestorWithin at hf
          split at hf
          · rename_i hf'
            cases hf
            exact hf'
          · cases hf
        obtain ⟨h₁, h₂⟩ := hs.staging.belongs_ancestor _ hb hfa
        exact ⟨q, w, .refl w, h₁, h₂, rfl⟩
    · exact ⟨_, _, .write _ _, hbm, hmain, rfl⟩
  have hlq : Later w v := .of_quiet hq
  have hst := hs.staging.quiet hq
  have hc := hs.covered.quiet hq
  have hspv : 0 < v.spare next := by
    have h₁ := demand_object w next
    have h₂ := demand_object v next
    have h₃ : v.demand (.object next) = w.demand (.object next) := hq.demand _
    have h₄ : v.demand (.sole next) = w.demand (.sole next) := hq.demand _
    omega
  have hcov := hc.copy (r := next) (.inl hspv) (hns next)
  have hpos : 0 < v.count next := by
    have h₁ := hc (.object next) rfl
    rw [demand_object, supply_object] at h₁
    omega
  have hl : Later w (v.retain next) := hlq.trans (.retain next)
  exact ⟨next, _, he, hs.turn (hst.retain hpos) hcov hl hq.active (hq.thread hs.seated).1, hl,
    hq.active, hnb.later hl⟩

theorem Poised.quiet (hs : Poised A hand m₀ m e w) (hq : Quiet w w') : Poised A hand m₀ m e w' :=
  hs.turn (hs.staging.quiet hq) (hs.covered.quiet hq) (.of_quiet hq) hq.active
    (hq.thread hs.seated).1

theorem tokens_exitToEmpty (p : Payload) : (exitToEmpty p).tokens = p.tokens := by
  cases p with
  | ok a => rfl
  | error f =>
    unfold exitToEmpty
    dsimp only
    split <;> rfl

theorem Poised.retarget {target next : Ref} (hs : Poised A hand .idle ⟨.driving, .none⟩ .plain w)
    (ho : w.Owned h (w.active - 1)) (hb : w.Belongs next h)
    (hc : ∀ k, (.object target :: .object next :: p.tokens : List Token).count k ≤ hand.count k) :
    Sound A (w.retarget h target next p) :=
  hs.go (l := [.drop target, .drain h]) (t := .driveTarget h next p) (h := h) rfl rfl
    (by simp [Task.isFree, Task.isPlain]) ho (.inl rfl)
    ⟨ho, hb⟩ fun k => by simpa [Task.tokens] using hc k

namespace Sound

theorem drive {target : Ref} (hs : Sound A w)
    (hstk : w.thread.stack = .task (.drive h target p) :: below) :
    Sound A ((w.setStack below).drive h target p) := by
  obtain ⟨m₀, m, hi, hp, ho, hb⟩ := hs.poise hstk
  obtain ⟨rfl, rfl⟩ := Mode.of_step_ground hi (g := .asked) rfl
  generalize w.setStack below = v at *
  have hdr : (v.hub h).driving = false := (hp.staging.busy ho nofun).2.driving
  unfold World.drive
  rw [if_neg (by simp [hdr])]
  have hl : Later v (v.modifyHub h fun s => { s with driving := true }) :=
    .modifyHub' h fun _ => ⟨rfl, rfl, rfl⟩
  have ht := (Turning.start hp.staging ho).modifyHub (u := fun s => { s with driving := true })
    (fun _ => ⟨rfl, rfl, rfl, rfl⟩) fun o => { o with }
  have hst : Staging A (some (⟨.driving, .none⟩, .plain)) _ :=
    ht.take hp.staging nofun nofun ⟨rfl, rfl⟩ fun _ hfine => hfine.begin .refl
  have h₁ := hp.turn hst (Covered.modifyHub_of_eq (fun _ => ⟨rfl, rfl, rfl⟩) hp.covered) hl rfl rfl
  exact h₁.go (l := [.drain h]) (h := h) rfl rfl (by simp) (ho.later hl) (.inl rfl)
    ⟨ho.later hl, hb.later hl⟩ fun k => by simp [Task.tokens]

theorem endDriving (hs : Sound A w) (hstk : w.thread.stack = .task (.endDriving h) :: below) :
    Sound A ((w.setStack below).endDriving h) := by
  obtain ⟨m₀, m, hi, hp, ho⟩ := hs.poise hstk
  obtain ⟨rfl, rfl⟩ := Mode.of_step_ground hi (g := .arrived) rfl
  generalize w.setStack below = v at *
  have hl : Later v (v.modifyHub h fun s => { s with driving := false }) :=
    .modifyHub' h fun _ => ⟨rfl, rfl, rfl⟩
  have ht := (Turning.start hp.staging ho).modifyHub (u := fun s => { s with driving := false })
    (fun _ => ⟨rfl, rfl, rfl, rfl⟩) fun o => { o with }
  have hst : Staging A (some (.idle, .plain)) _ :=
    ht.take hp.staging nofun nofun ⟨rfl, rfl⟩ fun _ hfine => hfine.finish .refl
  have h₁ := hp.turn hst (Covered.modifyHub_of_eq (fun _ => ⟨rfl, rfl, rfl⟩) hp.covered) hl rfl rfl
  exact h₁.steady.sound

theorem driveMain {target : Ref} (hs : Sound A w)
    (hstk : w.thread.stack = .task (.driveMain h target p) :: below) :
    Sound A ((w.setStack below).driveMain h target p) := by
  obtain ⟨m₀, m, hi, hp, ho, hb⟩ := hs.poise hstk
  obtain ⟨rfl, rfl⟩ := Mode.of_step_ground hi (g := .arrived) rfl
  generalize w.setStack below = v at *
  exact hp.push rfl (.inl rfl) ⟨ho, trivial, trivial, hp.filed⟩ fun k => by
    simp [Task.tokens]

theorem driveKilled {target : Ref} (hs : Sound A w)
    (hstk : w.thread.stack = .task (.driveKilled h target p) :: below) :
    Sound A ((w.setStack below).driveKilled h target p) := by
  obtain ⟨m₀, m, hi, hp, ho, hb⟩ := hs.poise hstk
  obtain ⟨rfl, rfl⟩ := Mode.of_step_ground hi (g := .driving) rfl
  generalize w.setStack below = v at *
  obtain ⟨next, u, he, hu, hl, ha, hn⟩ := hp.nextLive ho hb nofun (by simp [Task.tokens])
  rw [World.driveKilled, he]
  refine hu.retarget (ha ▸ ho.later hl) hn fun k => ?_
  rw [tokens_exitToEmpty]
  simp [Task.tokens, List.count_cons]
  omega

theorem driveRefused {target : Ref} {err : SwitchError} (hs : Sound A w)
    (hstk : w.thread.stack = .task (.driveRefused h target err) :: below) :
    Sound A ((w.setStack below).driveRefused h target err) := by
  obtain ⟨m₀, m, hi, hp, ho, hb⟩ := hs.poise hstk
  obtain ⟨rfl, rfl⟩ := Mode.of_step_ground hi (g := .driving) rfl
  generalize w.setStack below = v at *
  unfold World.driveRefused
  dsimp only
  have hq : Quiet v (v.debug ("greenlet " ++ (v.greenlet target).id.text ++ ": cannot resume: " ++
    err.message)) := .write _ _
  have h₁ := hp.quiet hq
  have ho₁ := ho.later (.of_quiet hq)
  have ha : (v.debug ("greenlet " ++ (v.greenlet target).id.text ++ ": cannot resume: " ++
    err.message)).active = v.active := rfl
  generalize v.debug _ = u at *
  rw [← ha] at ho₁
  have hsp := (spare_of_main ho₁.1 (h₁.staging.undisposed ho₁ nofun)).1
  have hl : Later u (u.retain (u.hub h).main) := .retain _
  have hcov := h₁.covered.copy (r := (u.hub h).main) (.inl hsp) (by simp [Task.tokens])
  have hpos : 0 < u.count (u.hub h).main := by
    have h₁ := h₁.covered (.object (u.hub h).main) rfl
    rw [demand_object, supply_object] at h₁
    omega
  refine (h₁.turn (h₁.staging.retain hpos) hcov hl rfl rfl).retarget (ho₁.later hl)
    ((h₁.staging.hubs h ho₁.1).main.later hl) fun k => ?_
  simp [Task.tokens, Payload.tokens, List.count_cons]
  omega

theorem driveFinished {target : Ref} {out : Option Outgoing} (hs : Sound A w)
    (hstk : w.thread.stack = .task (.driveFinished h target out) :: below) :
    Sound A ((w.setStack below).driveFinished h target out) := by
  obtain ⟨m₀, m, hi, hp, ho, hb, -⟩ := hs.poise hstk
  obtain ⟨rfl, rfl⟩ := Mode.of_step_ground hi (g := .driving) rfl
  generalize w.setStack below = v at *
  unfold World.driveFinished
  dsimp only
  have hq : Quiet v (v.trace ("greenlet " ++ (v.greenlet target).id.text ++ " finished")) :=
    .write _ _
  have h₁ := hp.quiet hq
  have ho₁ := ho.later (.of_quiet hq)
  have hb₁ := hb.later (.of_quiet hq)
  have ha : (v.trace ("greenlet " ++ (v.greenlet target).id.text ++ " finished")).active =
    v.active := rfl
  generalize v.trace _ = u at *
  rw [← ha] at ho₁
  obtain ⟨next, x, he, hx, hl, ha', hn⟩ := h₁.nextLive ho₁ hb₁ nofun (by simp [Task.tokens])
  have hox := ha' ▸ ho₁.later hl
  rw [he]
  dsimp only
  split
  · refine hx.retarget hox hn fun k => ?_
    rw [tokens_exitToEmpty]
    simp [Task.tokens, Outgoing.tokens, List.count_cons]
    omega
  · have hgo := hx.go (l := .drop target :: Task.dropOutgoing out ++ [.drain h])
      (t := .driveTarget h next (.error ⟨.panic, "greenlet finished without a result"⟩)) (h := h)
      rfl rfl (fun t ht => ?_) hox (.inl rfl) ⟨hox, hn⟩ fun k => ?_
    · simpa using hgo
    · simp only [List.cons_append, List.mem_cons, List.mem_append, List.not_mem_nil, or_false] at ht
      rcases ht with rfl | ht | rfl
      · exact .inl rfl
      · exact .inl (List.all_eq_true.mp (Task.all_isFree_dropOutgoing out) t ht)
      · exact .inr rfl
    · simp [Task.tokens, Payload.tokens, List.count_cons]
      omega

theorem driveSuspended {target : Ref} {out : Option Outgoing} (hs : Sound A w)
    (hstk : w.thread.stack = .task (.driveSuspended h target out) :: below) :
    Sound A ((w.setStack below).driveSuspended h target out) := by
  obtain ⟨m₀, m, hi, hp, ho, hb, hpost⟩ := hs.poise hstk
  obtain ⟨rfl, rfl⟩ := Mode.of_step_ground hi (g := .driving) rfl
  generalize w.setStack below = v at *
  have hnext := hp.nextLive ho hb nofun (by simp [Task.tokens])
  unfold World.driveSuspended
  split
  · rename_i next p
    refine hp.retarget ho (hpost next p rfl) fun k => ?_
    simp [Task.tokens, Outgoing.tokens, List.count_cons]
  · obtain ⟨next, x, he, hx, hl, ha, hn⟩ := hnext
    rw [he]
    refine hx.retarget (ha ▸ ho.later hl) hn fun k => ?_
    rw [tokens_exitToEmpty]
    simp [Task.tokens, Outgoing.tokens, List.count_cons]
    omega
  · obtain ⟨next, x, he, hx, hl, ha, hn⟩ := hnext
    rw [he]
    refine hx.retarget (ha ▸ ho.later hl) hn fun k => ?_
    simp [Task.tokens, Payload.tokens, List.count_cons]
    omega

end Sound

end World

end Switchyard
