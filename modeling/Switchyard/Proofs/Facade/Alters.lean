import Switchyard.Proofs.Facade.Seats

/-!
# What a step changes

A task changes few greenlets and few fibers, and which ones can be told before it runs. The others
stay as they are, but for their parents and for handles.
-/

namespace Switchyard

open World

theorem Fiber.isOver_of_isTaken {s : Fiber Task} (h : s.isTaken = true) : s.isOver = true := by
  unfold isTaken at h
  unfold isOver
  split at h
  · simp only [*]
  · cases h

namespace Control

/-- From `c` to `c'` no stack comes back to a fiber, and only the fibers in `F` change. -/
def Keeps (F : FiberId → Prop) (c c' : Control Task) : Prop :=
  ∀ f s, c.fibers[f]? = some s → ∃ s', c'.fibers[f]? = some s' ∧ s.Later s' ∧ (F f ∨ s.Alike s')

namespace Keeps

variable {F : FiberId → Prop} {c c' c'' : Control Task} {f : FiberId} {b : Bool}

theorem of_eq (h : c'.fibers = c.fibers) : Keeps F c c' :=
  fun _ s hs => ⟨s, h ▸ hs, .refl s, .inr (.refl s)⟩

theorem trans (h : Keeps F c c') (h' : Keeps F c' c'') : Keeps F c c'' := by
  intro f s hs
  obtain ⟨s₁, hs₁, hl₁, ha₁⟩ := h f s hs
  obtain ⟨s₂, hs₂, hl₂, ha₂⟩ := h' f s₁ hs₁
  refine ⟨s₂, hs₂, ⟨fun ho => hl₂.ended (hl₁.ended ho), fun ht => hl₂.taken (hl₁.taken ht),
    fun hc => hl₂.cancelling (hl₁.cancelling hc)⟩, ?_⟩
  rcases ha₁ with ha₁ | ha₁
  · exact .inl ha₁
  · exact ha₂.imp_right ha₁.trans

theorem modify {u : Fiber Task → Fiber Task} (hl : (c.fiberD f).Later (u (c.fiberD f)))
    (ha : F f ∨ (c.fiberD f).Alike (u (c.fiberD f))) : Keeps F c (c.modify f u) := by
  intro g s hs
  by_cases hg : f = g
  · subst hg
    rw [fiberD_of_some hs] at hl ha
    exact ⟨u s, by rw [Control.modify, Array.getElem?_modify, if_pos rfl, hs]; rfl, hl, ha⟩
  · exact ⟨s, by simp [Control.modify, Array.getElem?_modify, hg, hs], .refl s, .inr (.refl s)⟩

theorem handles (n : Nat) : Keeps F c (c.modify f fun s => { s with handles := s.handles + 1 - n }) :=
  modify ⟨id, id, id⟩ (.inr ⟨rfl, rfl, rfl, rfl, rfl⟩)

theorem share : Keeps F c (c.share f) := handles 0

theorem create (entry discard : List Task) : Keeps F c (c.create entry discard).2 := by
  intro g s hs
  refine ⟨s, ?_, .refl s, .inr (.refl s)⟩
  have hlt : g < c.fibers.size := by
    by_contra hn
    rw [Array.getElem?_eq_none (Nat.le_of_not_lt hn)] at hs
    cases hs
  simp only [Control.create, Array.getElem?_push, if_neg (Nat.ne_of_lt hlt)]
  exact hs

theorem settle (hF : F f) : Keeps F c (c.modify f Fiber.settle) :=
  modify ⟨id, id, id⟩ (.inl hF)

theorem resume (hF : F f) (h : c.resume f = some c') : Keeps F c c' := by
  have entered (u : Fiber Task → Fiber Task) (s : List (Item Task))
      (hu : (c.fiberD f).Later (u (c.fiberD f))) :
      Keeps F c { c.modify f u with stack := s } :=
    (modify hu (.inl hF)).trans (of_eq rfl)
  unfold Control.resume at h
  split at h
  · cases h
  · rename_i hp
    cases h
    exact entered _ _ ⟨fun ho => (by rw [Fiber.isOver, hp] at ho; cases ho),
      fun ho => (by rw [Fiber.isTaken, hp] at ho; cases ho), id⟩
  · rename_i hp
    cases h
    exact entered _ _ ⟨fun ho => (by rw [Fiber.isOver, hp] at ho; cases ho),
      fun ho => (by rw [Fiber.isTaken, hp] at ho; cases ho), id⟩
  · cases h
    exact of_eq rfl
  · cases h
    exact of_eq rfl

theorem taken (hF : F f) : Keeps F c (c.modify f fun s => { s with phase := .taken }) :=
  modify ⟨fun _ => rfl, fun _ => rfl, id⟩ (.inl hF)

theorem destroy (hF : F f) : Keeps F c (c.destroy f b).1 := by
  unfold Control.destroy
  dsimp only
  split
  · exact taken hF
  · split
    · exact (taken hF).trans (of_eq rfl)
    · exact (taken hF).trans (of_eq rfl)
  · exact of_eq rfl
  · exact taken hF
  · exact taken hF

theorem abandon (hF : F f) : Keeps F c (c.abandon f) := by
  unfold Control.abandon
  dsimp only
  split
  · exact ((settle hF).trans (taken hF)).trans (of_eq rfl)
  · exact ((settle hF).trans (taken hF)).trans (of_eq rfl)
  · exact settle hF
  · exact (settle hF).trans (taken hF)
  · exact (settle hF).trans (taken hF)

theorem unshare (hF : F f) : Keeps F c (c.unshare f b).1 := by
  unfold Control.unshare
  dsimp only
  have h₁ : Keeps F c (c.modify f fun s => { s with handles := s.handles - 1 }) := handles 2
  split
  · exact (h₁.trans (modify ⟨id, id, fun _ => rfl⟩ (.inl hF))).trans (destroy hF)
  · exact h₁

/-- The topmost fiber is left. It runs, unless it is being unwound. -/
theorem suspend {above below : List (Item Task)} {forced : Bool}
    (hs : split c.stack = some (above, f, forced, below)) (hF : F f)
    (ha : forced = false → (c.fiberD f).isOver = false) (h : c.suspend = some c') :
    Keeps F c c' := by
  unfold Control.suspend at h
  rw [hs] at h
  obtain rfl := Option.some.inj h
  cases forced with
  | true => exact of_eq rfl
  | false =>
    have hover := ha rfl
    refine (modify (u := fun s => { s with phase := .parked above }) ?_ (.inl hF)).trans (of_eq rfl)
    refine ⟨fun ho => ?_, fun ht => ?_, id⟩
    · rw [hover] at ho
      cases ho
    · rw [Fiber.isOver_of_isTaken ht] at hover
      cases hover

theorem land {forced : Bool} (hF : F f) (ha : forced = false → (c.fiberD f).isTaken = false) :
    Keeps F c (c.land f forced) := by
  refine modify ⟨fun ho => ?_, fun ht => ?_, fun hc => ?_⟩ (.inl hF)
  · cases forced with
    | true => exact ho
    | false => rfl
  · cases forced with
    | true => exact ht
    | false =>
      rw [ha rfl] at ht
      cases ht
  · cases forced <;> exact hc

end Keeps

end Control

/-- From `w` to `w'` time goes by, and only the greenlets in `G` and the fibers in `F` change. -/
structure Alters (G : Ref → Prop) (F : FiberId → Prop) (w w' : World) : Prop extends Later w w' where
  greenlets : ∀ r g', r < w.heap.size → w'.greenlet? r = some g' →
    G r ∨ ∃ g, w.greenlet? r = some g ∧ g.Alike g'
  bodies : ∀ f s, w.fibers[f]? = some s → F f ∨ ∃ s', w'.fibers[f]? = some s' ∧ s.Alike s'

namespace Alters

variable {G : Ref → Prop} {F : FiberId → Prop} {w w' w'' : World} {hand hand' : List Token}

theorem trans (h : Alters G F w w') (h' : Alters G F w' w'') : Alters G F w w'' where
  toLater := h.toLater.trans h'.toLater
  greenlets r g hr hg := by
    rcases h'.greenlets r g (Nat.lt_of_lt_of_le hr h.size) hg with hG | ⟨g₁, hg₁, ha₁⟩
    · exact .inl hG
    · refine (h.greenlets r g₁ hr hg₁).imp_right ?_
      rintro ⟨g₀, hg₀, ha₀⟩
      exact ⟨g₀, hg₀, ha₀.trans ha₁⟩
  bodies f s hs := by
    rcases h.bodies f s hs with hF | ⟨s₁, hs₁, ha₁⟩
    · exact .inl hF
    · refine (h'.bodies f s₁ hs₁).imp_right ?_
      rintro ⟨s₂, hs₂, ha₂⟩
      exact ⟨s₂, hs₂, ha₁.trans ha₂⟩

theorem mono {G' : Ref → Prop} {F' : FiberId → Prop} (h : Alters G F w w') (hG : ∀ r, G r → G' r)
    (hF : ∀ f, F f → F' f) : Alters G' F' w w' where
  toLater := h.toLater
  greenlets r g hr hg := (h.greenlets r g hr hg).imp_left (hG r)
  bodies f s hs := (h.bodies f s hs).imp_left (hF f)

theorem after (h' : Alters G F w' w'') (h : Alters G F w w') : Alters G F w w'' := h.trans h'

theorem of_eq (hh : w'.hubs = w.hubs) (hp : w'.heap = w.heap) (hf : w'.fibers = w.fibers) :
    Alters G F w w' where
  toLater := .of_eq hh hp hf
  greenlets r g _ hg := .inr ⟨g, by rwa [World.greenlet?, object?, ← hp], .refl g⟩
  bodies f s hs := .inr ⟨s, hf ▸ hs, .refl s⟩

theorem refl (w : World) : Alters G F w w := of_eq rfl rfl rfl

theorem of_quiet (h : Quiet w w') : Alters G F w w' := of_eq h.hubs h.heap h.fibers

theorem modifyThread (u : Thread → Thread) : Alters G F w (w.modifyThread u) := of_eq rfl rfl rfl

theorem push (ts : List Task) : Alters G F w (w.push ts) := of_eq rfl rfl rfl

theorem setStack (s : List (Item Task)) : Alters G F w (w.setStack s) := of_eq rfl rfl rfl

theorem fail (p : Panic) : Alters G F w (w.fail p) := of_eq rfl rfl rfl

theorem modifyHub (h : HubId) {u : Hub → Hub} (hu : ∀ s : Hub, s.Later (u s)) :
    Alters G F w (w.modifyHub h u) where
  toLater := .modifyHub h hu
  greenlets _ g _ hg := .inr ⟨g, hg, .refl g⟩
  bodies _ s hs := .inr ⟨s, hs, .refl s⟩

theorem modifyHub' (h : HubId) {u : Hub → Hub}
    (hu : ∀ s, (u s).thread = s.thread ∧ (u s).main = s.main ∧ (u s).closed = s.closed) :
    Alters G F w (w.modifyHub h u) :=
  modifyHub h fun s => ⟨(hu s).1, (hu s).2.1, fun hc => (hu s).2.2.trans hc⟩

theorem modifyStats (h : HubId) (u : Stats → Stats) : Alters G F w (w.modifyStats h u) :=
  modifyHub' h fun _ => ⟨rfl, rfl, rfl⟩

theorem setControl {c : Control Task} (hc : Control.Keeps F w.control c) :
    Alters G F w (w.setControl c) where
  toLater := .setControl fun f s hs => by
    obtain ⟨s', hs', hl, -⟩ := hc f s hs
    exact ⟨s', hs', hl⟩
  greenlets r g _ hg := .inr ⟨g, hg, .refl g⟩
  bodies f s hs := by
    obtain ⟨s', hs', -, ha⟩ := hc f s hs
    exact ha.imp_right fun ha => ⟨s', hs', ha⟩

theorem takeControl {c : Control Task × Bool} (hc : Control.Keeps F w.control c.1) :
    Alters G F w (w.takeControl c) := by
  unfold World.takeControl
  dsimp only
  split
  · exact .after (fail _) (setControl hc)
  · exact setControl hc

theorem setCount {r : Ref} {u : Object → Object} (hu : ∀ o, (u o).value = o.value) :
    Alters G F w (w.modifyObject r u) where
  toLater := .setCount r hu
  greenlets q g _ hg := by
    refine .inr ⟨g, ?_, .refl g⟩
    obtain ⟨n, ho⟩ := greenlet?_eq_some_iff.mp hg
    rw [object?_modifyObject] at ho
    split at ho
    · subst_vars
      obtain ⟨⟨m, v⟩, ho', he⟩ := Option.map_eq_some_iff.mp ho
      obtain rfl : v = .greenlet g := (hu ⟨m, v⟩).symm.trans (congrArg Object.value he)
      exact greenlet?_eq_some_iff.mpr ⟨m, ho'⟩
    · exact greenlet?_eq_some_iff.mpr ⟨n, ho⟩
  bodies f s hs := .inr ⟨s, hs, .refl s⟩

theorem retain (r : Ref) : Alters G F w (w.retain r) := setCount fun _ => rfl

theorem modifyGreenlet {r : Ref} {u : Greenlet → Greenlet}
    (hl : ∀ g, w.greenlet? r = some g → g.Later (u g))
    (ha : G r ∨ ∀ g, w.greenlet? r = some g → g.Alike (u g)) :
    Alters G F w (w.modifyGreenlet r u) where
  toLater := .modifyGreenlet r hl
  greenlets q g _ hg := by
    rw [greenlet?_modifyGreenlet] at hg
    split at hg
    · subst_vars
      obtain ⟨g₀, hg₀, rfl⟩ := Option.map_eq_some_iff.mp hg
      exact ha.imp_right fun ha => ⟨g₀, hg₀, ha g₀ hg₀⟩
    · exact .inr ⟨g, hg, .refl g⟩
  bodies f s hs := .inr ⟨s, hs, .refl s⟩

theorem setState {r : Ref} (hr : G r) (s : RunState) : Alters G F w (w.setState r s) :=
  modifyGreenlet (fun g _ => ⟨rfl, rfl, rfl, rfl, fun hd => by simp [RunState.moveTo, hd, RunState.isDead],
    id⟩) (.inl hr)

theorem alloc (v : Value) : Alters G F w (w.alloc v).2 where
  toLater := .alloc v
  greenlets r g hr hg := by
    obtain ⟨n, ho⟩ := greenlet?_eq_some_iff.mp hg
    rw [object?_alloc, if_neg (Nat.ne_of_lt hr)] at ho
    exact .inr ⟨g, greenlet?_eq_some_iff.mpr ⟨n, ho⟩, .refl g⟩
  bodies f s hs := .inr ⟨s, hs, .refl s⟩

theorem erase (r : Ref) : Alters G F w (w.erase r) where
  toLater := .erase r
  greenlets q g _ hg := by
    obtain ⟨n, ho⟩ := greenlet?_eq_some_iff.mp hg
    rw [object?_erase] at ho
    split at ho
    · cases ho
    · exact .inr ⟨g, greenlet?_eq_some_iff.mpr ⟨n, ho⟩, .refl g⟩
  bodies f s hs := .inr ⟨s, hs, .refl s⟩

theorem createHub (w : World) : Alters G F w w.createHub.2 where
  toLater := .createHub w
  greenlets r g hr hg := by
    obtain ⟨-, id, hq⟩ := createHub_quiet w
    rw [hq.greenlet?] at hg
    have h₁ : Alters G F w ((w.alloc (.greenlet (w.newMain id))).2.retain w.heap.size) :=
      (alloc _).trans (retain _)
    exact h₁.greenlets r g hr hg
  bodies f s hs := .inr ⟨s, hs, .refl s⟩

theorem effect (e : Effect .full hand w hand' w') : Alters G F w w' := by
  induction e with
  | trade => exact refl _
  | quiet h => exact of_quiet h
  | trans _ _ ih ih' => exact ih.trans ih'
  | push | frame | take | call | collect | tables | spawn => exact of_eq rfl rfl rfl
  | register f => exact (alloc (.failure f)).trans (modifyThread _)
  | fail p => exact fail p
  | alloc v => exact alloc v
  | retain r => exact retain r
  | holdHub h => exact modifyHub' h fun _ => ⟨rfl, rfl, rfl⟩
  | makeHome => exact (createHub _).trans (modifyThread _)
  | create _ _ hc =>
    obtain ⟨-, -, -, id, hq⟩ := createGreenlet_ok hc
    refine Alters.trans ?_ (of_quiet hq)
    exact ((retain _).trans (alloc _)).trans (modifyHub' _ fun _ => ⟨rfl, rfl, rfl⟩)
  | setParent _ _ hs =>
    obtain ⟨-, -, rfl⟩ := setParent_ok hs
    exact (retain _).trans (modifyGreenlet (fun g _ => ⟨rfl, rfl, rfl, rfl, id, id⟩)
      (.inr fun g _ => ⟨rfl, rfl, rfl, rfl, rfl, rfl⟩))

theorem revive {r : Ref} {u : Object → Object}
    (hu : ∀ o, w.object? r = some o → o.value.greenlet? = none ∧ (u o).value.greenlet? = none) :
    Alters G F w (w.modifyObject r u) where
  toLater := .modifyObject r fun o ho => by
    obtain ⟨h₁, h₂⟩ := hu o ho
    refine ⟨fun g hg => ?_, fun _ => h₂⟩
    rw [hg] at h₁
    cases h₁
  greenlets q g _ hg := by
    obtain ⟨n, ho⟩ := greenlet?_eq_some_iff.mp hg
    rw [object?_modifyObject] at ho
    split at ho
    · subst_vars
      obtain ⟨o, ho', he⟩ := Option.map_eq_some_iff.mp ho
      have := (hu o ho').2
      rw [he] at this
      cases this
    · exact .inr ⟨g, greenlet?_eq_some_iff.mpr ⟨n, ho⟩, .refl g⟩
  bodies f s hs := .inr ⟨s, hs, .refl s⟩

end Alters

namespace World

/-- Nothing refers to the greenlet any more, and its stack has no hub left to be unwound by. -/
def Lapsed (w : World) (r : Ref) : Prop :=
  (w.greenlet r).hasStack = true ∧
    (w.hubLives (w.greenlet r).hub = false ∨ (w.hub (w.greenlet r).hub).closed = true)

def HasFiber (w : World) (r : Ref) (f : FiberId) : Prop :=
  ∃ p, (w.greenlet r).fiber = some p ∧ p.value = f

end World

namespace Task

def Changes (w : World) : Task → Ref → Prop
  | drop r, q => q = r ∧ w.Lapsed r
  | destroy r, q | release _ r, q | teardownEnd _ r _, q | driveBack _ r _, q => q = r
  | teardown h, q => (w.hub h).closed = false ∧ q ∈ (w.hub h).nodes
  | resumed h, q => q = (w.hub h).current
  | driveTarget h r _, q | driveRegister h r _, q => q = r ∨ q = (w.hub h).current
  | _, _ => False

def Works (w : World) : Task → FiberId → Prop
  | unshare f, g | settle f, g | driveResume _ _ f, g => g = f
  | dropPinned p, g => g = p.value
  | drop r, g => w.Lapsed r ∧ w.HasFiber r g
  | release _ r, g => w.HasFiber r g
  | teardown h, g => (w.hub h).closed = false ∧ ∃ r ∈ (w.hub h).nodes, w.HasFiber r g
  | suspend .., g =>
    ∃ above forced below, Control.split w.thread.stack = some (above, g, forced, below)
  | _, _ => False

end Task

namespace Alters

variable {G : Ref → Prop} {F : FiberId → Prop} {w w' : World} {h k : HubId} {r target : Ref}
  {f : FiberId} {p : Payload}

theorem unshare (hF : F f) : Alters G F w (w.unshare f) := takeControl (.unshare hF)

theorem modifyFiber {u : Fiber Task → Fiber Task} (hF : F f)
    (hu : (w.fiberD f).Later (u (w.fiberD f))) : Alters G F w (w.modifyFiber f u) := by
  have hk : Control.Keeps F w.control (w.control.modify f u) := .modify hu (.inl hF)
  refine ⟨⟨fun h s hs => ⟨s, hs, rfl, rfl, id⟩, Nat.le_refl _,
    fun r o _ ho => ⟨o, ho, fun g hg => ⟨g, hg, .refl g⟩, id⟩, fun g s hs => ?_⟩,
    fun r g _ hg => .inr ⟨g, hg, .refl g⟩, fun g s hs => ?_⟩
  · obtain ⟨s', hs', hl, -⟩ := hk g s hs
    exact ⟨s', hs', hl⟩
  · obtain ⟨s', hs', -, ha⟩ := hk g s hs
    exact ha.imp_right fun ha => ⟨s', hs', ha⟩

theorem unwind (hF : F f) : Alters G F w (w.unwind f) := by
  have h₁ : Alters G F w (w.modifyFiber f fun s => { s with cancelling := true }) :=
    modifyFiber hF ⟨id, id, fun _ => rfl⟩
  unfold World.unwind
  dsimp only
  split
  · exact .after (of_quiet (.write _ _)) h₁
  · exact .after (takeControl (.destroy hF)) (.after (push _) h₁)

theorem strip (hr : G r) {u : Greenlet → Greenlet} (hu : ∀ g : Greenlet, g.Later (u g)) :
    Alters G F w (w.modifyGreenlet r u) :=
  modifyGreenlet (fun g _ => hu g) (.inl hr)

theorem bury (hr : G r) :
    Alters G F w (w.modifyGreenlet r fun g => { g with state := .dead, fiber := none }) :=
  strip hr fun _ => ⟨rfl, rfl, rfl, rfl, fun _ => rfl, id⟩

theorem abandonStack (hr : G r) (hF : ∀ f, w.HasFiber r f → F f) :
    Alters G F w (w.abandonStack r).2 := by
  have h₁ : Alters G F w (w.modifyGreenlet r fun g => { g with state := .dead, fiber := none }) :=
    bury hr
  unfold World.abandonStack
  dsimp only
  split
  · exact h₁
  · rename_i p hp
    split
    · exact h₁
    · rename_i f hf
      have hv : p.value = f := by
        unfold Pinned.get? at hf
        split at hf
        · exact Option.some.inj hf
        · cases hf
      have hFf : F f := hF f ⟨p, hp, hv⟩
      exact .after (setControl ((Control.Keeps.abandon hFf).trans (.unshare hFf))) h₁

theorem defer (h : HubId) (r : Ref) : Alters G F w (w.defer h r) := by
  unfold World.defer
  exact .after (modifyStats _ _) (.after (modifyHub' _ fun _ => ⟨rfl, rfl, rfl⟩)
    (of_quiet (.write _ _)))

theorem releaseHook (hr : w.Lapsed r → G r) (hF : ∀ f, w.Lapsed r → w.HasFiber r f → F f) :
    Alters G F w (w.releaseHook r) := by
  have hkept : Alters G F w (w.modifyObject r fun o => { o with count := 1 }) := setCount fun _ => rfl
  unfold World.releaseHook
  dsimp only
  split
  · refine .after (push _) ?_
    split
    · exact modifyHub' _ fun _ => ⟨rfl, rfl, rfl⟩
    · exact refl w
  rename_i hst
  replace hst : (w.greenlet r).hasStack = true := by simpa using hst
  split
  · rename_i hlv
    have hlap : w.Lapsed r := ⟨hst, .inl (by simpa using hlv)⟩
    exact .after (push _) (.after (abandonStack (hr hlap) fun f hf => hF f hlap hf)
      (of_quiet (.write _ _)))
  split
  · rename_i hcl
    have hlap : w.Lapsed r := ⟨hst, .inr hcl⟩
    exact .after (push _) (.after (modifyStats _ _) (.after
      (abandonStack (hr hlap) fun f hf => hF f hlap hf)
      (.after (modifyHub' _ fun _ => ⟨rfl, rfl, rfl⟩) (of_quiet (.write _ _)))))
  split
  · exact .after (modifyHub' _ fun _ => ⟨rfl, rfl, rfl⟩) (.after (of_quiet (.write _ _)) hkept)
  split
  · exact .after (push _) (.after (modifyHub' _ fun _ => ⟨rfl, rfl, rfl⟩) hkept)
  · exact .after (defer _ _) hkept

theorem lastDropped {v : Value} (hv : ∃ n, w.object? r = some ⟨n, v⟩) (hr : w.Lapsed r → G r)
    (hF : ∀ f, w.Lapsed r → w.HasFiber r f → F f) : Alters G F w (w.lastDropped r v) := by
  unfold World.lastDropped
  split
  · split
    · exact push _
    · exact releaseHook hr hF
  · rename_i name lives
    obtain ⟨n, ho⟩ := hv
    have h₁ : Alters G F w (w.modifyObject r fun _ => ⟨1, .phoenix name lives⟩) :=
      revive fun o ho' => by
        obtain rfl := Option.some.inj (ho'.symm.trans ho)
        exact ⟨rfl, rfl⟩
    have h₂ := h₁.trans (of_quiet (.event "revive" [.text name, .nat lives]))
    exact .after (push _) (h₂.trans (of_eq rfl rfl rfl))
  · exact push _

theorem drop (hr : w.Lapsed r → G r) (hF : ∀ f, w.Lapsed r → w.HasFiber r f → F f) :
    Alters G F w (w.drop r) := by
  unfold World.drop
  split
  · exact refl w
  · rename_i o ho
    dsimp only
    have h₁ : Alters G F w (w.modifyObject r fun o => { o with count := o.count - 1 }) :=
      setCount fun _ => rfl
    split
    · have ho' : (w.modifyObject r fun o => { o with count := o.count - 1 }).object? r =
          some ⟨o.count - 1, o.value⟩ := by
        rw [object?_modifyObject, if_pos rfl, ho]
        rfl
      have hg : (w.modifyObject r fun o => { o with count := o.count - 1 }).greenlet r =
          w.greenlet r := by
        simp only [World.greenlet, valueD, ho', ho, Option.map_some, Option.getD_some]
      have hlap : (w.modifyObject r fun o => { o with count := o.count - 1 }).Lapsed r ↔
          w.Lapsed r := by
        unfold World.Lapsed
        rw [hg]
        rfl
      have hfib (f : FiberId) : (w.modifyObject r fun o => { o with count := o.count - 1 }).HasFiber
          r f ↔ w.HasFiber r f := by
        unfold World.HasFiber
        rw [hg]
      exact h₁.trans (lastDropped ⟨_, ho'⟩ (fun hl => hr (hlap.mp hl))
        fun f hl hf => hF f (hlap.mp hl) ((hfib f).mp hf))
    · exact h₁

theorem dropPinned {q : Pinned FiberId} (hF : F q.value) : Alters G F w (w.dropPinned q) := by
  unfold World.dropPinned
  split
  · rename_i f hf
    unfold Pinned.get? at hf
    split at hf
    · exact unshare (Option.some.inj hf ▸ hF)
    · cases hf
  · exact refl w

theorem destroy (hr : G r) : Alters G F w (w.destroy r) := by
  unfold World.destroy
  dsimp only
  have h₁ : Alters G F w { w with lock := (w.lock.ensure? w.active).getD w.lock } :=
    of_eq rfl rfl rfl
  split
  · exact .after (push _) h₁
  · exact .after (push _) (.after (of_quiet (.event _ _)) h₁)
  · exact .after (push _) (.after (strip hr fun _ => ⟨rfl, rfl, rfl, rfl, id, fun _ => rfl⟩) h₁)
  · exact .after (push _) h₁

theorem release (hr : G r) (hF : ∀ f, w.HasFiber r f → F f) : Alters G F w (w.release h r) := by
  have h₁ : Alters G F w (w.modifyGreenlet r fun g => { g with state := .dead, fiber := none }) :=
    bury hr
  unfold World.release
  dsimp only
  split
  · exact .after (push _) h₁
  · rename_i p hp
    split
    · exact .after (push _) (.after (modifyHub' _ fun _ => ⟨rfl, rfl, rfl⟩) h₁)
    · rename_i f hf
      have hv : p.value = f := by
        unfold Pinned.get? at hf
        split at hf
        · exact Option.some.inj hf
        · cases hf
      exact .after (unwind (hF f ⟨p, hp, hv⟩)) (.after (push _) (.after (of_quiet (.write _ _))
        (.after (modifyHub' _ fun _ => ⟨rfl, rfl, rfl⟩) h₁)))

theorem released (h : HubId) (r : Ref) : Alters G F w (w.released h r) :=
  .after (push _) (.after (modifyStats _ _) (modifyHub' _ fun _ => ⟨rfl, rfl, rfl⟩))

theorem drain (h : HubId) : Alters G F w (w.drain h) := by
  unfold World.drain
  dsimp only
  split
  · exact refl w
  · have h₁ : Alters G F w (w.modifyHub h fun s => { s with deferred := [], foreign := [] }) :=
      modifyHub' _ fun _ => ⟨rfl, rfl, rfl⟩
    split
    · exact .after (modifyStats _ _) h₁
    · exact .after (push _) (.after (modifyStats _ _) h₁)

theorem leaveHub (h : HubId) : Alters G F w (w.leaveHub h) := by
  unfold World.leaveHub
  dsimp only
  split
  · exact modifyHub' _ fun _ => ⟨rfl, rfl, rfl⟩
  · exact .after (push _) (modifyHub' _ fun _ => ⟨rfl, rfl, rfl⟩)

theorem shutGreenlet (hr : G r) (hF : ∀ f, w.HasFiber r f → F f) :
    Alters G F w (w.shutGreenlet r).2.2 :=
  .after (strip hr fun _ => ⟨rfl, rfl, rfl, rfl, id, fun _ => rfl⟩) (abandonStack hr hF)

theorem greenlet?_abandonStack (r q : Ref) : (w.abandonStack r).2.greenlet? q =
    if r = q then (w.greenlet? q).map fun g => { g with state := .dead, fiber := none }
    else w.greenlet? q := by
  have h₁ := greenlet?_modifyGreenlet (w := w) r q fun g => { g with state := .dead, fiber := none }
  unfold World.abandonStack
  dsimp only
  split
  · exact h₁
  · split
    · exact h₁
    · exact h₁

theorem greenlet?_shutGreenlet (r q : Ref) : (w.shutGreenlet r).2.2.greenlet? q =
    if r = q then (w.greenlet? q).map fun g =>
      { g with state := .dead, run := none, fiber := none, inbox := none }
    else w.greenlet? q := by
  unfold World.shutGreenlet
  dsimp only
  rw [greenlet?_modifyGreenlet, greenlet?_abandonStack]
  split
  · cases w.greenlet? q <;> rfl
  · rfl

theorem hasFiber_shutGreenlet {q : Ref} (hf : (w.shutGreenlet r).2.2.HasFiber q f) :
    w.HasFiber q f := by
  unfold World.HasFiber at *
  rw [World.greenlet_eq, greenlet?_shutGreenlet] at hf
  rw [World.greenlet_eq]
  split at hf
  · cases hg : w.greenlet? q with
    | none =>
      rw [hg] at hf
      exact hf
    | some g =>
      rw [hg] at hf
      obtain ⟨p, hp, -⟩ := hf
      cases hp
  · exact hf

theorem foldl_shutNext (rs : List Ref) (hr : ∀ r ∈ rs, G r)
    (hF : ∀ r ∈ rs, ∀ f, w.HasFiber r f → F f) (n : Nat) (drops : List Task) :
    Alters G F w (rs.foldl shutNext (n, drops, w)).2.2 := by
  induction rs generalizing n drops w with
  | nil => exact refl w
  | cons r rs ih =>
    refine (shutGreenlet (hr r List.mem_cons_self) (hF r List.mem_cons_self)).trans (ih ?_ ?_ _ _)
    · exact fun q hq => hr q (List.mem_cons_of_mem _ hq)
    · exact fun q hq f hf => hF q (List.mem_cons_of_mem _ hq) f (hasFiber_shutGreenlet hf)

theorem teardown (hr : (w.hub h).closed = false → ∀ r ∈ (w.hub h).nodes, G r)
    (hF : (w.hub h).closed = false → ∀ r ∈ (w.hub h).nodes, ∀ f, w.HasFiber r f → F f) :
    Alters G F w (w.teardown h) := by
  unfold World.teardown
  dsimp only
  split
  · exact refl w
  · rename_i hc
    replace hc : (w.hub h).closed = false := by simpa using hc
    have h₁ : Alters G F w (w.modifyHub h fun s => { s with closed := true, nodes := [] }) :=
      modifyHub _ fun _ => ⟨rfl, rfl, fun _ => rfl⟩
    refine .after (push _) (.after (modifyStats _ _) (.after ?_ h₁))
    exact foldl_shutNext (w := w.modifyHub h _) _ (hr hc) (hF hc) _ _

theorem exitSlots : Alters G F w w.exitSlots := by
  unfold World.exitSlots
  dsimp only
  split
  · exact refl w
  · exact .after (push _) (modifyThread _)
  · exact .after (push _) (modifyThread _)

theorem exitThread : Alters G F w w.exitThread := by
  unfold World.exitThread
  dsimp only
  split
  · exact .after (push _) (of_eq rfl rfl rfl)
  · exact push _

theorem endHubs : Alters G F w w.endHubs := by
  unfold World.endHubs
  split
  · exact refl w
  · exact .after (push _) (.after (of_quiet (.event _ _)) (of_eq rfl rfl rfl))

theorem raise (e : SwitchError) : Alters G F w (w.raise e) :=
  have hr : Effect .full [] w [] (w.raise e) := .raise e
  effect hr

theorem deliver (p : Payload) : Alters G F w (w.deliver p) :=
  have hd : Effect .full (p.tokens ++ []) w [] (w.deliver p) := .deliver p fun _ _ => trivial
  effect hd

theorem registerSwitch (ht : G target) (hc : G (w.hub h).current) :
    Alters G F w (w.registerSwitch h target).2 := by
  by_cases hth : (w.greenlet target).thread = (w.hub h).thread
  · obtain ⟨v, hv, hq⟩ := registerSwitch_ok hth
    rw [hv]
    have h₁ : Alters G F w ((w.retain target).modifyHub h fun s => { s with current := target }) :=
      .after (modifyHub' _ fun _ => ⟨rfl, rfl, rfl⟩) (retain target)
    refine .after (of_quiet hq) (.after (modifyStats _ _) (.after (setState ht _) (.after ?_ h₁)))
    exact strip hc fun _ => ⟨rfl, rfl, rfl, rfl, fun hd => by simp [hd], id⟩
  · unfold World.registerSwitch
    dsimp only
    rw [if_pos (by simpa using hth)]
    exact raise _

theorem switch (h : HubId) (target : Ref) (p : Payload) : Alters G F w (w.switch h target p) := by
  unfold World.switch
  split
  · exact .after (push _) (raise _)
  · dsimp only
    split
    · exact .after (deliver p) (of_quiet (.write _ _))
    · split
      · unfold World.switchFromFiber
        dsimp only
        split
        · exact .after (push _) (.after (raise _) (retain target))
        · exact .after (push _) (.after (modifyHub' _ fun _ => ⟨rfl, rfl, rfl⟩) (retain target))
      · exact .after (push _) (retain target)

theorem suspend (hF : ∀ above g forced below,
      Control.split w.thread.stack = some (above, g, forced, below) → F g)
    (ha : ∀ above g below, Control.split w.thread.stack = some (above, g, false, below) →
      (w.fiberD g).isOver = false) (hw : w.Seated) :
    Alters G F w (w.suspend h f) := by
  unfold World.suspend
  split
  · split
    · rename_i c hc
      have hstk : (w.push [.resumed h]).control.stack = .task (.resumed h) :: w.thread.stack :=
        stack_push hw _
      cases hs : Control.split w.thread.stack with
      | none =>
        rw [Control.suspend, hstk, Control.split, hs] at hc
        cases hc
      | some x =>
        obtain ⟨above, g, forced, below⟩ := x
        have hs' : Control.split (w.push [.resumed h]).control.stack =
            some (.task (.resumed h) :: above, g, forced, below) := by
          rw [hstk, Control.split, hs]
          rfl
        refine setControl (Control.Keeps.suspend (c := (w.push [.resumed h]).control) hs'
          (hF _ _ _ _ hs) (fun hb => ?_) hc)
        subst hb
        exact ha _ _ _ hs
    · exact fail _
  · exact .after (push _) (modifyHub' _ fun _ => ⟨rfl, rfl, rfl⟩)

theorem resumed (hc : G (w.hub h).current) : Alters G F w (w.resumed h) :=
  .after (deliver _) (strip hc fun _ => ⟨rfl, rfl, rfl, rfl, id, id⟩)

theorem drive (h : HubId) (target : Ref) (p : Payload) : Alters G F w (w.drive h target p) := by
  unfold World.drive
  dsimp only
  split
  · exact .after (push _) (raise _)
  · exact .after (push _) (modifyHub' _ fun _ => ⟨rfl, rfl, rfl⟩)

theorem nextLive (h : HubId) (r : Ref) : Alters G F w (w.nextLive h r).2 := by
  unfold World.nextLive
  dsimp only
  split
  · exact retain _
  · exact .after (retain _) (of_quiet (.write _ _))

theorem driveTarget (ht : G target) (hc : G (w.hub h).current) :
    Alters G F w (w.driveTarget h target p) := by
  unfold World.driveTarget
  dsimp only
  split
  · have h₁ := registerSwitch (F := F) ht hc
    split
    · rename_i hr
      rw [hr] at h₁
      exact .after (push _) h₁
    · rename_i hr
      rw [hr] at h₁
      exact .after (push _) h₁
  · split
    · exact .after (push _) (.after (strip ht fun _ => ⟨rfl, rfl, rfl, rfl, fun _ => rfl, fun _ => rfl⟩)
        (of_quiet (.write _ _)))
    · split
      · exact .after (push _) (.after (strip ht fun _ => ⟨rfl, rfl, rfl, rfl, id, id⟩)
          (setControl .share))
      · exact .after (push _) (.after (modifyStats _ _) (.after
          (strip ht fun _ => ⟨rfl, rfl, rfl, rfl, id, fun _ => rfl⟩)
          (setControl ((Control.Keeps.create _ _).trans .share))))
      · exact .after (push _) (strip ht fun _ => ⟨rfl, rfl, rfl, rfl, id, fun _ => rfl⟩)

theorem driveRegister (ht : G target) (hc : G (w.hub h).current) :
    Alters G F w (w.driveRegister h target f) := by
  have h₁ := registerSwitch (F := F) ht hc
  unfold World.driveRegister
  split
  · rename_i hr
    rw [hr] at h₁
    exact .after (push _) h₁
  · rename_i hr
    rw [hr] at h₁
    exact .after (push _) h₁

theorem driveRefused (h : HubId) (target : Ref) (e : SwitchError) :
    Alters G F w (w.driveRefused h target e) :=
  .after (push _) (.after (retain _) (of_quiet (.write _ _)))

theorem driveKilled (h : HubId) (target : Ref) (p : Payload) :
    Alters G F w (w.driveKilled h target p) :=
  .after (push _) (nextLive h target)

theorem driveResume (hF : F f) : Alters G F w (w.driveResume h target f) := by
  have h₁ : Alters G F w ((w.modifyHub h fun s => { s with runningFiber := true }).push
      [.driveBack h target f]) := .after (push _) (modifyHub' _ fun _ => ⟨rfl, rfl, rfl⟩)
  unfold World.driveResume
  dsimp only
  split
  · rename_i hr
    exact .after (setControl (.resume hF hr)) h₁
  · exact .after (fail _) h₁

theorem driveBack (ht : G target) : Alters G F w (w.driveBack h target f) := by
  have h₁ : Alters G F w
      (w.modifyHub h fun s => { s with runningFiber := false, outgoing := none }) :=
    modifyHub' _ fun _ => ⟨rfl, rfl, rfl⟩
  unfold World.driveBack
  dsimp only
  split
  · exact .after (push _) (.after (modifyStats _ _) (.after (bury ht) h₁))
  · exact .after (push _) h₁

theorem driveFinished (h : HubId) (target : Ref) (out : Option Outgoing) :
    Alters G F w (w.driveFinished h target out) := by
  unfold World.driveFinished
  dsimp only
  split <;> exact .after (push _) (.after (nextLive h target) (of_quiet (.write _ _)))

theorem driveSuspended (h : HubId) (target : Ref) (out : Option Outgoing) :
    Alters G F w (w.driveSuspended h target out) := by
  rcases out with _ | (⟨next, p⟩ | p)
  · exact .after (push _) (nextLive h target)
  · exact push _
  · exact .after (push _) (nextLive h target)

theorem postResult (h : HubId) (f : FiberId) (p : Payload) :
    Alters G F w (w.postResult h f p) := by
  unfold World.postResult
  split
  · exact push _
  · exact .after (push _) (modifyHub' _ fun _ => ⟨rfl, rfl, rfl⟩)

theorem runTask {t : Task} (hw : w.Seated) (hs : t.isSignal = false)
    (hf : ∀ st rest, t = .steps (st :: rest) → st.isFacade = true)
    (ha : t.isSuspend = true → ∀ above g below,
      Control.split w.thread.stack = some (above, g, false, below) → (w.fiberD g).isOver = false) :
    Alters (t.Changes w) (t.Works w) w (w.runTask t) := by
  by_cases hscript : t.isScript = true
  · exact effect (.runTask hw hscript (Licence.grants_full _ _))
  cases t with
  | drop r => exact drop (fun hl => ⟨rfl, hl⟩) fun f hl hf => ⟨hl, hf⟩
  | dropPinned p => exact dropPinned rfl
  | destroy r => exact destroy rfl
  | reclaim r => exact (erase r).trans (of_eq rfl rfl rfl)
  | unlock => exact of_eq rfl rfl rfl
  | unshare f => exact unshare rfl
  | settle f => exact modifyFiber rfl ⟨id, id, id⟩
  | leaveHub k => exact leaveHub k
  | dropHubFields k => exact .after (push _) (modifyHub' _ fun _ => ⟨rfl, rfl, rfl⟩)
  | release k r => exact release rfl fun _ hf => hf
  | released k r => exact released k r
  | drain k => exact drain k
  | teardown k => exact teardown (fun hc _ hr => ⟨hc, hr⟩) fun hc r hr _ hf => ⟨hc, r, hr, hf⟩
  | teardownQueues k n => exact .after (push _) (modifyHub' _ fun _ => ⟨rfl, rfl, rfl⟩)
  | teardownCurrent k n =>
    exact .after (push _) (.after (modifyHub' _ fun _ => ⟨rfl, rfl, rfl⟩)
      (.after (retain _) (retain _)))
  | teardownEnd k main n =>
    have hr : Task.Changes w (.teardownEnd k main n) main := rfl
    exact .after (push _) (.after (of_quiet (.write _ _)) (setState hr _))
  | switch k target p => exact switch k target p
  | suspend k f => exact suspend (fun _ _ _ _ hg => ⟨_, _, _, hg⟩) (ha rfl) hw
  | resumed k => exact resumed rfl
  | drive k target p => exact drive k target p
  | driveTarget k target p => exact driveTarget (.inl rfl) (.inr rfl)
  | driveKilled k target p => exact driveKilled k target p
  | driveRefused k target e => exact driveRefused k target e
  | driveRegister k target f => exact driveRegister (.inl rfl) (.inr rfl)
  | driveResume k target f => exact driveResume rfl
  | driveBack k target f => exact driveBack rfl
  | driveFinished k target out => exact driveFinished k target out
  | driveSuspended k target out => exact driveSuspended k target out
  | driveMain k target p => exact push _
  | endDriving k => exact modifyHub' _ fun _ => ⟨rfl, rfl, rfl⟩
  | entry => exact refl w
  | steps rest =>
    cases rest with
    | nil => exact absurd rfl hscript
    | cons st rest => exact absurd (hf st rest rfl) hscript
  | endHubs => exact endHubs
  | exitThread => exact exitThread
  | exitSlots => exact exitSlots
  | answer | leave | hand | result | fail => cases hs
  | _ => exact absurd rfl hscript

theorem answer (hw : w.Seated) (outcome : Except SwitchError (Args Obj)) (u : Task) :
    Alters G F w (World.answer outcome u w) := by
  cases u with
  | switched name target catches => exact effect (.switched (.inl trivial) name target catches outcome)
  | rally r => exact effect (.rallyAnswered hw r outcome)
  | _ => exact push _

theorem leave (flow : Flow) (u : Task) : Alters G F w (World.leave flow u w) := by
  unfold World.leave
  split
  · split
    · exact .after (push _) (of_quiet (.event _ _))
    · exact push _
  · exact of_quiet (.event _ _)
  · exact push _
  · exact push _

theorem hand (last : Args Obj) (flow : Flow) (u : Task) :
    Alters G F w (World.hand last flow u w) := by
  cases u with
  | nestEnd how => exact effect (.nestEnd (.inl trivial) how last flow)
  | _ => exact push _

theorem result (p : Payload) (u : Task) : Alters G F w (World.result p u w) := by
  cases u with
  | entry k f => exact postResult k f p
  | _ => exact push _

theorem failTask (p : Panic) (u : Task) : Alters G F w (World.failTask p u w) := by
  have hcalm : Alters G F w w.calm := of_quiet .calm
  unfold World.failTask
  split
  · dsimp only
    have hnote (name : String) (ds : List Datum) : Alters G F w (w.calm.note name ds) :=
      .after (of_quiet (.event _ _)) hcalm
    split
    · exact .after (fail p) (hnote _ _)
    · exact hnote _ _
  · exact .after (of_quiet (.event _ _)) hcalm
  · split
    · exact push _
    · exact .after (postResult _ _ _) hcalm
  · exact .after exitThread (.after (modifyThread _) hcalm)
  · exact push _

theorem land {forced : Bool} (hF : F f) (ha : forced = false → (w.fiberD f).isTaken = false) :
    Alters G F w (w.setControl (w.control.land f forced)) :=
  setControl (.land hF ha)

theorem failBase {forced : Bool} (p : Panic) (hF : F f)
    (ha : forced = false → (w.fiberD f).isTaken = false) :
    Alters G F w (World.failBase p f forced w) := by
  unfold World.failBase
  dsimp only
  split
  · exact .after (of_quiet .calm) (land hF ha)
  · exact .after (push _) (land hF ha)

theorem signal {run : Task → World → World} (hr : ∀ (v : World) u, v.Seated → Alters G F v (run u v))
    (hw : w.Seated) : Alters G F w (w.signal run) := by
  unfold World.signal
  split
  · exact (setStack _).trans (hr _ _ ((seated_modifyThread _).mpr hw))
  · exact refl w

theorem fault (p : Panic)
    (hF : ∀ f forced below, w.thread.stack = .base f forced :: below → F f)
    (ha : ∀ f below, w.thread.stack = .base f false :: below → (w.fiberD f).isTaken = false) :
    Alters G F w (w.fault p) := by
  unfold World.fault
  split
  · exact refl w
  · exact (setStack _).trans (failTask p _)
  · rename_i f forced below hs
    refine (setStack _).trans (failBase p (hF f forced below hs) fun hb => ?_)
    subst hb
    exact ha f below hs

end Alters

namespace World

variable {A : Prop} {w w₀ w' : World} {tr tr' : List World}

def Changes (w : World) (r : Ref) : Prop :=
  ∃ t below, w.thread.stack = .task t :: below ∧ t.Changes w r

/-- The fiber whose bottom the next step comes to. -/
def Lands (w : World) (f : FiberId) : Prop :=
  (∃ forced below, w.thread.stack = .base f forced :: below) ∨
    ∃ p forced below, w.thread.stack = .task (.fail p) :: .base f forced :: below

def Works (w : World) (f : FiberId) : Prop :=
  w.Lands f ∨ ∃ t below, w.thread.stack = .task t :: below ∧ t.Works (w.setStack below) f

/-- A step changes what its task may change, and time goes by. -/
theorem Sound.alters (hs : Sound A w) (hf : w.OnFacade) : Alters w.Changes w.Works w w.next := by
  have hw := hs.seated
  have hactive {f : FiberId} (hb : .base f false ∈ w.thread.stack) :
      (w.fiberD f).phase = .active := by
    obtain ⟨h, r, hseat⟩ := hs.seats_active hb
    exact hseat.active
  have htaken {f : FiberId} (hb : .base f false ∈ w.thread.stack) :
      (w.fiberD f).isTaken = false := by
    rw [Fiber.isTaken, hactive hb]
  unfold World.next
  split
  · exact .of_eq rfl rfl rfl
  · rename_i f forced below hstk
    refine (Alters.setStack below).trans (.land (.inl (.inl ⟨forced, below, hstk⟩)) fun hb => ?_)
    subst hb
    exact htaken (by rw [hstk]; exact List.mem_cons_self)
  · rename_i t below hstk
    have hstk' : (w.setStack below).thread.stack = below := stack_setStack hw below
    have hw' : (w.setStack below).Seated := (seated_modifyThread _).mpr hw
    by_cases hσ : t.isSignal = true
    · refine (Alters.setStack below).trans ?_
      cases t with
      | answer outcome => exact .signal (fun _ u hv => .answer hv outcome u) hw'
      | leave flow => exact .signal (fun _ u _ => .leave flow u) hw'
      | hand last flow => exact .signal (fun _ u _ => .hand last flow u) hw'
      | result p => exact .signal (fun _ u _ => .result p u) hw'
      | fail p =>
        refine .fault p (fun f forced rest hb => ?_) fun f rest hb => ?_
        · rw [hstk'] at hb
          exact .inl (.inr ⟨p, forced, rest, hb ▸ hstk⟩)
        · rw [hstk'] at hb
          exact htaken (by rw [hstk, hb]; simp)
      | _ => cases hσ
    · have hrun := Alters.runTask (t := t) hw' (by simpa using hσ)
        (fun st rest ht => hf st rest below (ht ▸ hstk)) fun _ above g rest hs => by
          rw [hstk'] at hs
          have hb : .base g false ∈ w.thread.stack := by
            rw [hstk, (Control.split_eq hs).1]
            simp
          change (w.fiberD g).isOver = false
          rw [Fiber.isOver, hactive hb]
      refine (Alters.setStack below).trans (hrun.mono (fun r hr => ⟨t, below, hstk, ?_⟩)
        fun f hf => .inr ⟨t, below, hstk, hf⟩)
      cases t <;> exact hr

theorem Run.later (hs : w₀.Starts) (h₀ : Run w₀ tr w) (h : Run w tr' w')
    (hf : ∀ v ∈ tr' ++ tr, v.OnFacade) : Later w w' := by
  induction h with
  | start => exact .refl w
  | @step tr' v h _ ih =>
    have hf' : ∀ u ∈ tr' ++ tr, u.OnFacade := fun u hu => hf u (List.mem_cons_of_mem _ hu)
    have hsound := (h₀.append h).sound hs hf'
    exact (ih hf').trans (hsound.alters (hf v List.mem_cons_self)).toLater
  | yield _ _ _ ih => exact (ih hf).trans (.of_eq rfl rfl rfl)

end World

end Switchyard
