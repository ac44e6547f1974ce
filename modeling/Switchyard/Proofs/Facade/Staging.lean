import Switchyard.Proofs.Beside
import Switchyard.Proofs.Facade.Filed
import Switchyard.Proofs.Facade.Scene

/-!
# A world in order

Each hub belongs to one thread and is in order together with its greenlets, its fibers and the
place where its thread stands. A fiber that still has a stack belongs to one greenlet.
-/

namespace Switchyard

namespace World

/-- The greenlet `g` at `r`, to which `n` references lead, goes with its hub and its fiber. -/
structure Decent (w : World) (r : Ref) (n : Nat) (g : Greenlet) : Prop where
  hub : g.hub < w.hubs.size
  thread : g.thread = (w.hub g.hub).thread
  parent : ∀ p, g.parent = some p → w.Belongs p g.hub
  main : g.isMain = true → g.run = none ∧ g.parent = none ∧ g.state ≠ .unstarted
  spent : g.fiber ≠ none → g.run = none ∧ g.isMain = false
  buried : n = 0 → g.fiber = none
  shut : (w.hub g.hub).closed = true → g.fiber = none
  ended : (w.hub g.hub).closed = true → g.isMain = false → 0 < n → g.state = .dead ∧ g.run = none
  listed : (w.hub g.hub).closed = false → g.isMain = false → 0 < n → r ∈ (w.hub g.hub).nodes
  saved : ∀ p, g.fiber = some p → p.value < w.fibers.size ∧
    (w.fiberD p.value).Filed w g.hub ((w.hub g.hub).thread - 1) p.value

/-- What the hub `s`, known as `h`, refers to is its own. -/
structure Orderly (w : World) (h : HubId) (s : Hub) : Prop where
  thread : 0 < s.thread ∧ s.thread ≤ w.threads.size
  main : w.Belongs s.main h
  current : w.Belongs s.current h
  posted : ∀ u p, s.outgoing = some (.switch u p) → w.Belongs u h
  queued : ∀ r ∈ s.deferred ++ s.foreign, w.Spent r h
  nodes : ∀ r ∈ s.nodes, w.Belongs r h
  disposed : s.disposed = true → s.closed = true

/-- The hub `h`, whose thread stands at `m`, is open and in order, or is closed and idle. -/
structure Staged (A : Prop) (w : World) (h : HubId) (m : Mode) (e : Edge) : Prop where
  shut : (w.hub h).closed = true → m = .idle
  home : (w.hub h).closed = false →
    w.homeAt ((w.hub h).thread - 1) = .full h ∨ e = .closing h
  fine : (w.hub h).closed = false → (w.scene h m e).Fine A h

/-- Where the thread of the hub `h` stands. For the active thread that is as `x` says. -/
def Shows (w : World) (x : Option (Mode × Edge)) (h : HubId) (m : Mode) (e : Edge) : Prop :=
  if (w.hub h).thread = w.active then x = some (m, e)
  else Mode.of (w.stackAt ((w.hub h).thread - 1)) = some m ∧
    e = Item.edge (w.stackAt ((w.hub h).thread - 1))

/-- All is in order, but for the stack of the active thread. Where `x` is `none`, so is the hub of
the active thread. -/
structure Staging (A : Prop) (x : Option (Mode × Edge)) (w : World) : Prop where
  manned : w.Manned
  named : w.named = .empty
  elsewhere : ∀ i, i ≠ w.active - 1 →
    (∃ m, Mode.of (w.stackAt i) = some m) ∧ Item.Filed w i (w.stackAt i)
  greenlets : ∀ r n g, w.object? r = some ⟨n, .greenlet g⟩ → w.Decent r n g
  pins : ∀ r q g k p p', w.greenlet? r = some g → w.greenlet? q = some k → g.fiber = some p →
    k.fiber = some p' → p.value = p'.value → r = q
  held : ∀ f < w.fibers.size, (w.fiberD f).isOver = false →
    ∃ r g p, w.greenlet? r = some g ∧ g.fiber = some p ∧ p.value = f
  hubs : ∀ h < w.hubs.size, w.Orderly h (w.hub h)
  unique : ∀ h k, h < w.hubs.size → k < w.hubs.size → (w.hub h).thread = (w.hub k).thread → h = k
  homes : ∀ i h, w.homeAt i = .full h → w.Owned h i
  vacant : ∀ h < w.hubs.size, w.homeAt ((w.hub h).thread - 1) ≠ .vacant
  staged : ∀ h < w.hubs.size, ∀ m e, w.Shows x h m e → w.Staged A h m e

section

variable {A : Prop} {w w' : World} {x : Option (Mode × Edge)}

theorem Decent.lists {r : Ref} {n n' : Nat} {g : Greenlet} (h : w.Decent r n g)
    (hl : Later w w') (hc : (w'.hub g.hub).closed = (w.hub g.hub).closed)
    (hr : r ∈ (w.hub g.hub).nodes → r ∈ (w'.hub g.hub).nodes) (hn : 0 < n' → 0 < n)
    (hb : n' = 0 → g.fiber = none)
    (hs : ∀ p, g.fiber = some p → (w'.fiberD p.value).Filed w' g.hub
      ((w.hub g.hub).thread - 1) p.value) : w'.Decent r n' g := by
  obtain ⟨hk, ht, -, -⟩ := hl.hub h.hub
  constructor
  · exact hk
  · rw [ht]; exact h.thread
  · exact fun p hp => (h.parent p hp).later hl
  · exact h.main
  · exact h.spent
  · exact hb
  · rw [hc]; exact h.shut
  · rw [hc]; exact fun hc hm hp => h.ended hc hm (hn hp)
  · rw [hc]; exact fun hc hm hp => hr (h.listed hc hm (hn hp))
  · rw [ht]
    exact fun p hp => ⟨(hl.fiberD (h.saved p hp).1).1, hs p hp⟩

theorem Decent.later {r : Ref} {n n' : Nat} {g : Greenlet} (h : w.Decent r n g)
    (hl : Later w w') (hh : w'.hubs = w.hubs) (hn : 0 < n' → 0 < n) (hb : n' = 0 → g.fiber = none)
    (hs : ∀ p, g.fiber = some p → (w'.fiberD p.value).Filed w' g.hub
      ((w.hub g.hub).thread - 1) p.value) : w'.Decent r n' g := by
  have hk : w'.hub g.hub = w.hub g.hub := by rw [World.hub, hh, World.hub]
  exact h.lists hl (by rw [hk]) (by rw [hk]; exact id) hn hb hs

theorem Orderly.later {h : HubId} {s : Hub} (ho : w.Orderly h s) (hl : Later w w')
    (ht : w'.threads.size = w.threads.size) : w'.Orderly h s where
  thread := by rw [ht]; exact ho.thread
  main := ho.main.later hl
  current := ho.current.later hl
  posted u p hp := (ho.posted u p hp).later hl
  queued r hr := (ho.queued r hr).later hl
  nodes r hr := (ho.nodes r hr).later hl
  disposed := ho.disposed

theorem scene_modifyHub {h : HubId} (hh : h < w.hubs.size) (f : Hub → Hub) (m : Mode) (e : Edge) :
    (w.modifyHub h f).scene h m e = ⟨(f (w.hub h)).core, w.living?, w.fiberD, m, e⟩ := by
  rw [scene, hub_modifyHub h h f hh, if_pos rfl]
  rfl

namespace Staging

theorem seated (h : Staging A x w) : w.Seated := h.manned.seated

theorem decent (h : Staging A x w) {r : Ref} {g : Greenlet} (hg : w.greenlet? r = some g) :
    ∃ n, w.object? r = some ⟨n, .greenlet g⟩ ∧ w.Decent r n g := by
  obtain ⟨n, ho⟩ := greenlet?_eq_some_iff.mp hg
  exact ⟨n, ho, h.greenlets r n g ho⟩

theorem place_ne (hs : Staging A x w) {h : HubId} (hh : h < w.hubs.size)
    (ht : (w.hub h).thread ≠ w.active) : (w.hub h).thread - 1 ≠ w.active - 1 := by
  have h₁ : 0 < (w.hub h).thread := (hs.hubs h hh).thread.1
  have h₂ : 0 < w.active := hs.seated.1
  intro he
  exact ht (Nat.sub_one_cancel h₁ h₂ he)

theorem shows_of (hs : Staging A x w) (hb : Beside w w') {h : HubId} (hh : h < w.hubs.size)
    (ht : (w'.hub h).thread = (w.hub h).thread) {m : Mode} {e : Edge}
    (hsh : w'.Shows x h m e) : w.Shows x h m e := by
  unfold Shows at *
  rw [ht, hb.active] at hsh
  split at hsh
  · rw [if_pos ‹_›]; exact hsh
  · rw [if_neg ‹_›]
    rwa [hb.stackAt _ (hs.place_ne hh ‹_›)] at hsh

theorem change (hs : Staging A x w) (hb : Beside w w') (hh : w'.hubs = w.hubs)
    (hl : Later w w') (hsize : w'.fibers.size = w.fibers.size)
    (hg : ∀ r n g', w'.object? r = some ⟨n, .greenlet g'⟩ → w'.Decent r n g' ∧
      ∃ n₀ g, w.object? r = some ⟨n₀, .greenlet g⟩ ∧
        (g'.fiber = g.fiber ∨ g'.fiber = none) ∧
        (0 < n → 0 < n₀ ∧ g'.hub = g.hub ∧
          (x = none ∧ (w.hub g.hub).thread = w.active ∨ g.Alike g' ∧
            ∀ p, g.fiber = some p → (w.fiberD p.value).Alike (w'.fiberD p.value))))
    (hheld : ∀ r g p, w.greenlet? r = some g → g.fiber = some p →
      (w'.fiberD p.value).isOver = true ∨ ∃ g', w'.greenlet? r = some g' ∧ g'.fiber = some p) :
    Staging A x w' := by
  have hk (k : HubId) : w'.hub k = w.hub k := by rw [World.hub, hh, World.hub]
  have hold {r : Ref} {g' : Greenlet} {p : Pinned FiberId} (hr : w'.greenlet? r = some g')
      (hp : g'.fiber = some p) : ∃ g, w.greenlet? r = some g ∧ g.fiber = some p := by
    obtain ⟨n, ho⟩ := greenlet?_eq_some_iff.mp hr
    obtain ⟨-, n₀, g, ho₀, hf, -⟩ := hg r n g' ho
    refine ⟨g, greenlet?_eq_some_iff.mpr ⟨n₀, ho₀⟩, ?_⟩
    rcases hf with hf | hf
    · rw [← hf]; exact hp
    · rw [hf] at hp; cases hp
  constructor
  · exact hb.manned hs.manned
  · exact hb.named.trans hs.named
  · intro i hi
    rw [hb.active] at hi
    rw [hb.stackAt i hi]
    exact ⟨(hs.elsewhere i hi).1, (hs.elsewhere i hi).2.later hl⟩
  · exact fun r n g ho => (hg r n g ho).1
  · intro r q g k p p' hr hq hp hp' hv
    obtain ⟨g₀, hr₀, hp₀⟩ := hold hr hp
    obtain ⟨k₀, hq₀, hp₀'⟩ := hold hq hp'
    exact hs.pins r q g₀ k₀ p p' hr₀ hq₀ hp₀ hp₀' hv
  · intro f hf ho
    rw [hsize] at hf
    have ho₀ : (w.fiberD f).isOver = false := by
      by_contra hn
      rw [(hl.fiberD hf).2.ended (by simpa using hn)] at ho
      cases ho
    obtain ⟨r, g, p, hr, hp, rfl⟩ := hs.held f hf ho₀
    rcases hheld r g p hr hp with hov | ⟨g', hr', hp'⟩
    · rw [hov] at ho; cases ho
    · exact ⟨r, g', p, hr', hp', rfl⟩
  · intro h hlt
    rw [hh] at hlt
    rw [hk]
    exact (hs.hubs h hlt).later hl hb.size
  · intro h k hlt hlt'
    rw [hk, hk]
    rw [hh] at hlt hlt'
    exact hs.unique h k hlt hlt'
  · intro i h hi
    rw [hb.homeAt] at hi
    exact (hs.homes i h hi).later hl
  · intro h hlt
    rw [hh] at hlt
    rw [hk, hb.homeAt]
    exact hs.vacant h hlt
  · intro h hlt m e hsh
    rw [hh] at hlt
    have hsh₀ := hs.shows_of hb hlt (by rw [hk]) hsh
    have hst := hs.staged h hlt m e hsh₀
    have hx : ¬ (x = none ∧ (w.hub h).thread = w.active) := by
      rintro ⟨rfl, ht⟩
      simp [Shows, ht] at hsh₀
    constructor
    · rw [hk]; exact hst.shut
    · rw [hk, hb.homeAt]; exact hst.home
    · rw [hk]
      intro hc
      refine (hst.fine hc).alike (congrArg Hub.core (hk h)) rfl (.inr rfl) ?_ ?_ ?_
      · intro r g' hr hgh
        obtain ⟨n, hn, ho⟩ := living?_eq_some_iff.mp hr
        obtain ⟨-, n₀, g, ho₀, -, hal⟩ := hg r n g' ho
        obtain ⟨hn₀, hhub, hal⟩ := hal hn
        refine ⟨g, living?_eq_some_iff.mpr ⟨n₀, hn₀, ho₀⟩, (hal.resolve_left ?_).1⟩
        rw [← hhub, hgh]
        exact hx
      · intro r g' p hr hgh hp
        obtain ⟨n, hn, ho⟩ := living?_eq_some_iff.mp hr
        obtain ⟨-, n₀, g, ho₀, -, hal⟩ := hg r n g' ho
        obtain ⟨hn₀, hhub, hal⟩ := hal hn
        obtain ⟨ha, hf⟩ := hal.resolve_left (by rw [← hhub, hgh]; exact hx)
        exact hf p (ha.fiber ▸ hp)
      · rintro f ⟨ht, hca⟩
        have hf : f < w.fibers.size := by
          by_contra hn
          have hd : w.fiberD f = { phase := .taken } := by
            rw [fiberD_eq, Array.getElem?_eq_none (Nat.le_of_not_lt hn)]
            rfl
          change (w.fiberD f).cancelling = true at hca
          rw [hd] at hca
          cases hca
        exact ⟨(hl.fiberD hf).2.taken ht, (hl.fiberD hf).2.cancelling hca⟩

theorem congr (hs : Staging A x w) (hb : Beside w w') (hh : w'.hubs = w.hubs)
    (hp : w'.heap = w.heap) (hf : w'.fibers = w.fibers) : Staging A x w' := by
  have ho : w'.object? = w.object? := by funext r; rw [object?, hp, object?]
  have hd : w'.fiberD = w.fiberD := by funext f; rw [fiberD_eq, hf, fiberD_eq]
  have hg : w'.greenlet? = w.greenlet? := by funext r; rw [World.greenlet?, ho, World.greenlet?]
  have hl : Later w w' := .of_eq hh hp hf
  refine hs.change hb hh hl (by rw [hf]) (fun r n g hr => ?_) fun r g p hr hpf => ?_
  · rw [ho] at hr
    have hdec := hs.greenlets r n g hr
    refine ⟨hdec.later hl hh id hdec.buried fun p hpf => ?_, n, g, hr, .inl rfl, fun hn =>
      ⟨hn, rfl, .inr ⟨.refl g, fun p _ => by rw [hd]; exact .refl _⟩⟩⟩
    rw [hd]
    exact (hdec.saved p hpf).2.later hl
  · exact .inr ⟨g, by rw [hg]; exact hr, hpf⟩

theorem quiet (hs : Staging A x w) (h : Quiet w w') : Staging A x w' :=
  hs.congr (.of_quiet h) h.hubs h.heap h.fibers

theorem modifyThread (hs : Staging A x w) {f : Thread → Thread}
    (hf : ∀ t, (f t).home = t.home ∧ (f t).parent = t.parent) :
    Staging A x (w.modifyThread f) :=
  hs.congr (.modifyThread hs.seated hf) rfl rfl rfl

theorem setStack (hs : Staging A x w) (s : List (Item Task)) : Staging A x (w.setStack s) :=
  hs.modifyThread fun _ => ⟨rfl, rfl⟩

theorem push (hs : Staging A x w) (ts : List Task) : Staging A x (w.push ts) :=
  hs.modifyThread fun _ => ⟨rfl, rfl⟩

theorem fail (hs : Staging A x w) (p : Panic) : Staging A x (w.fail p) :=
  (hs.push [.fail p]).modifyThread fun _ => ⟨rfl, rfl⟩

theorem heap (hs : Staging A x w) {r : Ref} {f : Object → Object}
    (hl : Later w (w.modifyObject r f))
    (hg : ∀ n g, w.object? r = some ⟨n, .greenlet g⟩ → ∃ n' g', f ⟨n, .greenlet g⟩ =
      ⟨n', .greenlet g'⟩ ∧ g'.hub = g.hub ∧ (w.modifyObject r f).Decent r n' g' ∧
        (g'.fiber = g.fiber ∨ g'.fiber = none ∧ ∀ p, g.fiber = some p →
          (w.fiberD p.value).isOver = true) ∧
        (0 < n' → 0 < n ∧ (x = none ∧ (w.hub g.hub).thread = w.active ∨ g.Alike g'))) :
    Staging A x (w.modifyObject r f) := by
  have hof {q : Ref} {o : Object} (ho : w.object? q = some o) (hq : r ≠ q) :
      (w.modifyObject r f).object? q = some o := by
    rw [object?_modifyObject, if_neg hq, ho]
  refine hs.change (.of_threads rfl rfl rfl) rfl hl rfl (fun q n g' ho => ?_)
    fun q g p hq hp => ?_
  · rw [object?_modifyObject] at ho
    split at ho
    · rename_i hqr
      subst hqr
      obtain ⟨⟨n₀, v⟩, ho₀, hv⟩ := Option.map_eq_some_iff.mp ho
      cases v with
      | greenlet g =>
        obtain ⟨n', g'', he, hh, hd, hf, ha⟩ := hg n₀ g ho₀
        rw [he] at hv
        cases hv
        exact ⟨hd, n₀, g, ho₀, hf.imp id And.left, fun hn =>
          ⟨(ha hn).1, hh, (ha hn).2.imp id fun ha => ⟨ha, fun p _ => .refl _⟩⟩⟩
      | _ =>
        obtain ⟨o₁, ho₁, -, hn⟩ := hl.objects r _ (lt_size_of_object? ho₀)
          (by rw [object?_modifyObject, if_pos rfl, ho₀]; exact congrArg some hv)
        rw [ho₀] at ho₁
        cases ho₁
        cases hn rfl
    · have hdec := hs.greenlets q n g' ho
      exact ⟨hdec.later hl rfl id hdec.buried fun p hp => (hdec.saved p hp).2.later hl, n, g', ho,
        .inl rfl, fun hn => ⟨hn, rfl, .inr ⟨.refl _, fun p _ => .refl _⟩⟩⟩
  · obtain ⟨n, ho⟩ := greenlet?_eq_some_iff.mp hq
    by_cases hqr : r = q
    · subst hqr
      obtain ⟨n', g', he, -, -, hf, -⟩ := hg n g ho
      rcases hf with hf | ⟨-, hov⟩
      · refine .inr ⟨g', greenlet?_eq_some_iff.mpr ⟨n', ?_⟩, by rw [hf, hp]⟩
        rw [object?_modifyObject, if_pos rfl, ho, ← he]
        rfl
      · exact .inl (hov p hp)
    · exact .inr ⟨g, greenlet?_eq_some_iff.mpr ⟨n, hof ho hqr⟩, hp⟩

theorem setCount (hs : Staging A x w) {r : Ref} {f : Object → Object}
    (hf : ∀ o, (f o).value = o.value)
    (hn : ∀ n g, w.object? r = some ⟨n, .greenlet g⟩ →
      (0 < (f ⟨n, .greenlet g⟩).count → 0 < n) ∧
        ((f ⟨n, .greenlet g⟩).count = 0 → g.fiber = none)) :
    Staging A x (w.modifyObject r f) := by
  refine hs.heap (.setCount r hf) fun n g ho => ?_
  obtain ⟨h₁, h₂⟩ := hn n g ho
  have hdec := hs.greenlets r n g ho
  have he : f ⟨n, .greenlet g⟩ = ⟨(f ⟨n, .greenlet g⟩).count, .greenlet g⟩ :=
    congrArg (Object.mk _) (hf ⟨n, .greenlet g⟩)
  exact ⟨_, g, he, rfl, hdec.later (.setCount r hf) rfl h₁ h₂ fun p hp =>
    (hdec.saved p hp).2.later (.setCount r hf), .inl rfl, fun hp => ⟨h₁ hp, .inr (.refl g)⟩⟩

theorem retain (hs : Staging A x w) {r : Ref} (hr : 0 < w.count r) : Staging A x (w.retain r) := by
  refine hs.setCount (fun _ => rfl) fun n g ho => ⟨fun _ => ?_, nofun⟩
  rwa [count_of_some ho] at hr

theorem modifyGreenlet (hs : Staging A x w) {r : Ref} {f : Greenlet → Greenlet}
    (hl : Later w (w.modifyGreenlet r f))
    (hg : ∀ n g, w.object? r = some ⟨n, .greenlet g⟩ → (f g).hub = g.hub ∧
      (w.modifyGreenlet r f).Decent r n (f g) ∧
      ((f g).fiber = g.fiber ∨ (f g).fiber = none ∧ ∀ p, g.fiber = some p →
        (w.fiberD p.value).isOver = true) ∧
      (0 < n → x = none ∧ (w.hub g.hub).thread = w.active ∨ g.Alike (f g))) :
    Staging A x (w.modifyGreenlet r f) := by
  refine hs.heap hl fun n g ho => ?_
  obtain ⟨h₁, h₂, h₃, h₄⟩ := hg n g ho
  exact ⟨n, f g, rfl, h₁, h₂, h₃, fun hn => ⟨hn, h₄ hn⟩⟩

theorem alloc (hs : Staging A x w) {v : Value} (hv : v.greenlet? = none) :
    Staging A x (w.alloc v).2 := by
  have hl : Later w (w.alloc v).2 := .alloc v
  refine hs.change (.of_threads rfl rfl rfl) rfl hl rfl (fun r n g ho => ?_) fun r g p hr hp => ?_
  · rw [object?_alloc] at ho
    split at ho
    · obtain rfl : v = .greenlet g := congrArg Object.value (Option.some.inj ho)
      cases hv
    · have hdec := hs.greenlets r n g ho
      exact ⟨hdec.later hl rfl id hdec.buried fun p hp => (hdec.saved p hp).2.later hl, n, g, ho,
        .inl rfl, fun hn => ⟨hn, rfl, .inr ⟨.refl _, fun p _ => .refl _⟩⟩⟩
  · obtain ⟨n, ho⟩ := greenlet?_eq_some_iff.mp hr
    refine .inr ⟨g, greenlet?_eq_some_iff.mpr ⟨n, ?_⟩, hp⟩
    rw [object?_alloc, if_neg (Nat.ne_of_lt (lt_size_of_object? ho)), ho]

theorem erase (hs : Staging A x w) {r : Ref}
    (hr : ∀ g, w.greenlet? r = some g → g.fiber = none) : Staging A x (w.erase r) := by
  have hl : Later w (w.erase r) := .erase r
  refine hs.change (.of_threads rfl rfl rfl) rfl hl rfl (fun q n g ho => ?_) fun q g p hq hp => ?_
  · rw [object?_erase] at ho
    split at ho
    · cases ho
    · have hdec := hs.greenlets q n g ho
      exact ⟨hdec.later hl rfl id hdec.buried fun p hp => (hdec.saved p hp).2.later hl, n, g, ho,
        .inl rfl, fun hn => ⟨hn, rfl, .inr ⟨.refl _, fun p _ => .refl _⟩⟩⟩
  · obtain ⟨n, ho⟩ := greenlet?_eq_some_iff.mp hq
    refine .inr ⟨g, greenlet?_eq_some_iff.mpr ⟨n, ?_⟩, hp⟩
    rw [object?_erase, if_neg ?_, ho]
    rintro rfl
    rw [hr g hq] at hp
    cases hp

theorem fibers (hs : Staging A x w) {w' : World} (hb : Beside w w') (hh : w'.hubs = w.hubs)
    (hp : w'.heap = w.heap) (hl : Later w w') (hsize : w'.fibers.size = w.fibers.size)
    (hf : ∀ r g p, w.greenlet? r = some g → g.fiber = some p →
      (w.fiberD p.value).Alike (w'.fiberD p.value) ∨
        (w'.fiberD p.value).Filed w' g.hub ((w.hub g.hub).thread - 1) p.value ∧
        x = none ∧ (w.hub g.hub).thread = w.active) : Staging A x w' := by
  have ho : w'.object? = w.object? := by funext r; rw [object?, hp, object?]
  have hg : w'.greenlet? = w.greenlet? := by funext r; rw [World.greenlet?, ho, World.greenlet?]
  refine hs.change hb hh hl hsize (fun r n g hr => ?_) fun r g p hr hpf => ?_
  · rw [ho] at hr
    have hdec := hs.greenlets r n g hr
    have hgr := greenlet?_eq_some_iff.mpr ⟨n, hr⟩
    refine ⟨hdec.later hl hh id hdec.buried fun p hpf => ?_, n, g, hr, .inl rfl, fun hn =>
      ⟨hn, rfl, ?_⟩⟩
    · rcases hf r g p hgr hpf with ha | ⟨hfl, -⟩
      · have := (hdec.saved p hpf).2.later hl
        unfold Fiber.Filed at *
        rwa [ha.phase]
      · exact hfl
    · cases hpf : g.fiber with
      | none => exact .inr ⟨.refl g, (by simp)⟩
      | some p =>
        rcases hf r g p hgr hpf with ha | ⟨-, hx⟩
        · refine .inr ⟨.refl g, fun p' hp' => ?_⟩
          cases hp'
          exact ha
        · exact .inl hx
  · exact .inr ⟨g, by rw [hg]; exact hr, hpf⟩

/-- A hub changes: that of the active thread, or by nothing that decides about switches. It does not
open again, and it closes once none of its greenlets has a stack. -/
theorem rehub (hs : Staging A x w) {k : HubId} {f : Hub → Hub}
    (hf : ∀ s, (f s).thread = s.thread ∧ (f s).main = s.main ∧ (s.closed = true → (f s).closed = true))
    (ho : w.Orderly k (w.hub k) → w.Orderly k (f (w.hub k)))
    (hcl : (f (w.hub k)).closed = (w.hub k).closed ∨
      ∀ r n g, w.object? r = some ⟨n, .greenlet g⟩ → g.hub = k → g.fiber = none ∧
        (g.isMain = false → 0 < n → g.state = .dead ∧ g.run = none))
    (hn : (f (w.hub k)).closed = false → ∀ r n g, w.object? r = some ⟨n, .greenlet g⟩ → 0 < n →
      r ∈ (w.hub k).nodes → r ∈ (f (w.hub k)).nodes)
    (hx : x = none ∧ (w.hub k).thread = w.active ∨ (f (w.hub k)).core = (w.hub k).core) :
    Staging A x (w.modifyHub k f) := by
  have hl : Later w (w.modifyHub k f) := .modifyHub k fun s => ⟨(hf s).1, (hf s).2.1, (hf s).2.2⟩
  have hsize : (w.modifyHub k f).hubs.size = w.hubs.size := by simp [World.modifyHub]
  have hk {h : HubId} (hh : h < w.hubs.size) := hub_modifyHub k h f hh
  have hsame {h : HubId} (hh : h < w.hubs.size) :
      ((w.modifyHub k f).hub h).thread = (w.hub h).thread := by
    rw [hk hh]
    split
    · exact (hf _).1
    · rfl
  have hb : Beside w (w.modifyHub k f) := .of_threads rfl rfl rfl
  constructor
  · exact hb.manned hs.manned
  · exact hs.named
  · exact fun i hi => ⟨(hs.elsewhere i hi).1, (hs.elsewhere i hi).2.later hl⟩
  · intro r n g hr
    have hdec := hs.greenlets r n g hr
    have ht := hsame hdec.hub
    constructor
    · rw [hsize]; exact hdec.hub
    · rw [ht]; exact hdec.thread
    · exact fun p hp => (hdec.parent p hp).later hl
    · exact hdec.main
    · exact hdec.spent
    · exact hdec.buried
    · rw [hk hdec.hub]
      intro hc
      split at hc
      · rename_i he
        subst he
        rcases hcl with hcl | hcl
        · exact hdec.shut (hcl ▸ hc)
        · exact (hcl r n g hr rfl).1
      · exact hdec.shut hc
    · rw [hk hdec.hub]
      intro hc
      split at hc
      · rename_i he
        subst he
        rcases hcl with hcl | hcl
        · exact hdec.ended (hcl ▸ hc)
        · exact (hcl r n g hr rfl).2
      · exact hdec.ended hc
    · rw [hk hdec.hub]
      by_cases he : k = g.hub
      · subst he
        rw [if_pos rfl]
        intro hc hm hp
        have hopen : (w.hub g.hub).closed = false := by
          by_contra h
          rw [(hf _).2.2 (by simpa using h)] at hc
          cases hc
        exact hn hc r n g hr hp (hdec.listed hopen hm hp)
      · rw [if_neg he]
        exact hdec.listed
    · rw [ht]
      exact fun p hp => ⟨(hdec.saved p hp).1, (hdec.saved p hp).2.later hl⟩
  · exact hs.pins
  · exact hs.held
  · intro h hh
    rw [hsize] at hh
    rw [hk hh]
    split
    · rename_i he
      subst he
      exact (ho (hs.hubs k hh)).later hl rfl
    · exact (hs.hubs h hh).later hl rfl
  · intro h h' hh hh'
    rw [hsize] at hh hh'
    rw [hsame hh, hsame hh']
    exact hs.unique h h' hh hh'
  · exact fun i h hi => (hs.homes i h hi).later hl
  · intro h hh
    rw [hsize] at hh
    rw [hsame hh]
    exact hs.vacant h hh
  · intro h hh m e hsh
    rw [hsize] at hh
    have hsh₀ := hs.shows_of hb hh (hsame hh) hsh
    have hst := hs.staged h hh m e hsh₀
    have hcore : ((w.modifyHub k f).hub h).core = (w.hub h).core := by
      rw [hk hh]
      split
      · rename_i he
        subst he
        refine hx.resolve_left ?_
        rintro ⟨rfl, ht⟩
        simp [Shows, ht] at hsh₀
      · rfl
    have hclosed : ((w.modifyHub k f).hub h).closed = (w.hub h).closed := congrArg Core.closed hcore
    constructor
    · rw [hclosed]; exact hst.shut
    · rw [hsame hh, hclosed]; exact hst.home
    · rw [hclosed]
      exact fun hc => (hst.fine hc).alike hcore rfl (.inr rfl) (fun r g hr _ => ⟨g, hr, .refl g⟩)
        (fun _ _ _ _ _ _ => .refl _) fun _ h => h

theorem modifyHub (hs : Staging A x w) {k : HubId} {f : Hub → Hub}
    (hf : ∀ s, (f s).thread = s.thread ∧ (f s).main = s.main ∧ (f s).closed = s.closed)
    (ho : w.Orderly k (w.hub k) → w.Orderly k (f (w.hub k)))
    (hn : ∀ r n g, w.object? r = some ⟨n, .greenlet g⟩ → 0 < n → r ∈ (w.hub k).nodes →
      r ∈ (f (w.hub k)).nodes)
    (hx : x = none ∧ (w.hub k).thread = w.active ∨ (f (w.hub k)).core = (w.hub k).core) :
    Staging A x (w.modifyHub k f) :=
  hs.rehub (fun s => ⟨(hf s).1, (hf s).2.1, fun hc => (hf s).2.2.trans hc⟩) ho
    (.inl (hf _).2.2) (fun _ => hn) hx

end Staging

end

end World

end Switchyard
