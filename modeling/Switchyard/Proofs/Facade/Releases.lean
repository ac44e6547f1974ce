import Switchyard.Proofs.Facade.Drops
import Switchyard.Proofs.Facade.Turns

/-!
# Releasing stacks

A release is begun where the original stack runs code, and one at a time. The greenlet is dead from
its beginning on.
-/

namespace Switchyard

open World

namespace Mode

variable {g : Ground} {s : List (Item Task)}

theorem of_releases (hg : g.isCalm = true) {h : HubId} (rs : List Ref)
    (hs : of s = some ⟨g, .none⟩) :
    of ((rs.map (Task.release h)).map .task ++ s) = some ⟨g, .none⟩ := by
  induction rs with
  | nil => exact hs
  | cons r rs ih =>
    refine of_cons_of ih ?_
    cases g <;> first | rfl | cases hg

end Mode

namespace World

variable {A : Prop} {w w' : World} {m : Mode} {hand : List Token} {f : FiberId} {r : Ref}
  {h : HubId}

theorem later_modifyStats (h : HubId) (f : Stats → Stats) : Later w (w.modifyStats h f) :=
  .modifyHub' h fun _ => ⟨rfl, rfl, rfl⟩

theorem drains_releases (rs : List Ref) {s : List (Item Task)} (hd : Item.drains h s = true) :
    Item.drains h ((rs.map (Task.release h)).map .task ++ s) = true := by
  induction rs with
  | nil => exact hd
  | cons r rs ih => simpa [Item.drains] using ih

theorem filed_releases {i : Nat} {rs : List Ref} {s : List (Item Task)} (ho : w.Owned h i)
    (hs : ∀ r ∈ rs, w.Spent r h) (hd : Item.drains h s = true) (hf : Item.Filed w i s) :
    Item.Filed w i ((rs.map (Task.release h)).map .task ++ s) := by
  induction rs with
  | nil => exact hf
  | cons r rs ih =>
    exact ⟨⟨ho, hs r List.mem_cons_self, drains_releases rs hd⟩,
      ih fun q hq => hs q (List.mem_cons_of_mem r hq)⟩

namespace Steady

theorem calm_of_quiet (hs : Steady A hand m w) (hm : m.isOpen = true) (hh : h < w.hubs.size)
    (ht : (w.hub h).thread = w.active) (hrun : (w.hub h).runningFiber = false)
    (hrel : (w.hub h).releasing = false) : m.unwinding = .none ∧ m.ground.isCalm = true := by
  have hst := hs.staging.staged h hh m .plain (by rw [Shows, if_pos ht])
  by_cases hc : (w.hub h).closed = true
  · rw [hst.shut hc]
    exact ⟨rfl, rfl⟩
  · have hr : w.canRelease h = true := by
      simp [canRelease, ht, hrun, hrel, Bool.eq_false_iff.mpr hc]
    obtain ⟨h₁, h₂, -⟩ := hs.calm_of_canRelease hm hh hr
    exact ⟨h₁, h₂⟩

theorem drain (hs : Steady A hand m w) (hm : m.isOpen = true) (ho : w.Owned h (w.active - 1)) :
    Steady A hand m (w.drain h) := by
  unfold World.drain
  simp only
  split
  · exact hs
  · rename_i hq
    simp only [Bool.or_eq_true, not_or, Bool.not_eq_true, bne_eq_false_iff_eq] at hq
    obtain ⟨⟨ht, hrun⟩, hrel⟩ := hq
    obtain ⟨hu, hcalm⟩ := hs.calm_of_quiet hm ho.1 ht hrun hrel
    have hord := hs.staging.hubs h ho.1
    have hsp := hord.queued
    generalize hb : (w.hub h).deferred ++ (w.hub h).foreign = batch at hsp
    have h₁ : Steady A (batch.flatMap Token.queued ++ hand) m
        (w.modifyHub h fun s => { s with deferred := [], foreign := [] }) := by
      refine hs.same (hs.staging.modifyHub (fun _ => ⟨rfl, rfl, rfl⟩)
        (fun o => { o with queued := nofun }) (fun _ _ _ _ _ hr => hr) (.inr rfl)) ?_
        (.modifyHub' h fun _ => ⟨rfl, rfl, rfl⟩) rfl rfl
      refine hs.covered.modifyHub (fun s hs' k => ?_) fun hn => ?_
      · have hk : s = w.hub h := (hub_of_some hs').symm
        have hsup : Hub.supply { s with deferred := [], foreign := [] } h k = s.supply h k := by
          cases k <;> rfl
        rw [hsup, ← hb, ← hk]
        simp only [Hub.tokens, List.flatMap_append, List.flatMap_nil, List.append_nil,
          List.count_append]
        omega
      · rw [Array.getElem?_eq_none_iff] at hn
        exact absurd ho.1 (Nat.not_lt.mpr hn)
    have h₂ := h₁.stats h fun t => { t with
      deferred := t.deferred + (w.hub h).foreign.length
      drained := t.drained + batch.length }
    have hl₀ : Later w (w.modifyHub h fun s => { s with deferred := [], foreign := [] }) :=
      .modifyHub' h fun _ => ⟨rfl, rfl, rfl⟩
    have hl : Later w ((w.modifyHub h fun s => { s with deferred := [], foreign := [] }).modifyStats h
        fun t => { t with deferred := t.deferred + (w.hub h).foreign.length, drained := t.drained + batch.length }) :=
      hl₀.trans (later_modifyStats h _)
    have ha : ((w.modifyHub h fun s => { s with deferred := [], foreign := [] }).modifyStats h
        fun t => { t with deferred := t.deferred + (w.hub h).foreign.length, drained := t.drained + batch.length }).active = w.active := rfl
    generalize ((w.modifyHub h fun s => { s with deferred := [], foreign := [] }).modifyStats h
        fun t => { t with deferred := t.deferred + (w.hub h).foreign.length, drained := t.drained + batch.length }) = u at h₂ hl ha
    split
    · rename_i he
      rw [List.isEmpty_iff.mp he] at h₂
      exact h₂
    · have hst : (u.push (batch.map (Task.release h) ++ [.drain h])).thread.stack =
          (batch.map (Task.release h)).map .task ++ .task (.drain h) :: u.thread.stack := by
        refine (congrArg Thread.stack (thread_modifyThread h₂.seated _)).trans ?_
        simp
      refine ⟨h₂.staging.push _, h₂.covered.push h₂.seated fun k => ?_, ?_, ?_⟩
      · rw [Task.tokensOf_append, Task.tokensOf_releases, List.count_append, List.count_append]
        simp [Task.tokens]
      · rw [hst]
        obtain ⟨ground, u'⟩ := m
        obtain rfl : u' = .none := hu
        exact Mode.of_releases hcalm batch (Mode.of_cons_of h₂.mode (Mode.step_code hm (.inl rfl)))
      · rw [hst]
        have hlt : Later u (u.push (batch.map (Task.release h) ++ [.drain h])) := .of_eq rfl rfl rfl
        have hown : u.Owned h (u.active - 1) := ha ▸ ho.later hl
        exact filed_releases (hown.later hlt) (fun r hr => ((hsp r hr).later hl).later hlt)
          (by simp [Item.drains]) ⟨hown.later hlt, h₂.filed.later hlt⟩

end Steady

namespace Staging

theorem kill (hs : Staging A none w) {g : Greenlet} (hg : w.greenlet? r = some g)
    (ht : (w.hub g.hub).thread = w.active)
    (hf : ∀ p, g.fiber = some p → (w.fiberD p.value).isOver = true) :
    Staging A none (w.modifyGreenlet r fun g => { g with state := .dead, fiber := none }) := by
  have hl : Later w (w.modifyGreenlet r fun g => { g with state := .dead, fiber := none }) :=
    .modifyGreenlet r fun _ _ => ⟨rfl, rfl, rfl, rfl, fun _ => rfl, id⟩
  refine hs.modifyGreenlet hl fun n k ho => ?_
  obtain rfl : k = g := by
    have := greenlet?_eq_some_iff.mpr ⟨n, ho⟩
    exact Option.some.inj (this.symm.trans hg)
  have hd := hs.greenlets r n k ho
  refine ⟨rfl, ⟨hd.hub, hd.thread, fun p hp => (hd.parent p hp).later hl, fun hm =>
    ⟨(hd.main hm).1, (hd.main hm).2.1, by simp⟩, fun h => absurd rfl h, fun _ => rfl, fun _ => rfl,
    fun hc hm hn => ⟨rfl, (hd.ended hc hm hn).2⟩, hd.listed, nofun⟩, .inr ⟨rfl, hf⟩,
    fun _ => .inl ⟨rfl, ht⟩⟩

theorem take (hs : Staging A none w) {g : Greenlet} {p : Pinned FiberId}
    (hg : w.greenlet? r = some g) (hp : g.fiber = some p)
    (ht : (w.hub g.hub).thread = w.active) :
    Staging A none (w.modifyFiber p.value fun s => { s with phase := .taken, cancelling := true }) := by
  have hl (s : Fiber Task) : s.Later { s with phase := .taken, cancelling := true } :=
    ⟨fun _ => rfl, fun _ => rfl, fun _ => rfl⟩
  refine hs.fibers (.of_threads rfl rfl rfl) rfl rfl (.modifyFiber _ hl)
    (by simp [World.modifyFiber]) fun q k p' hk hp' => ?_
  have hlt : p'.value < w.fibers.size := by
    obtain ⟨n, -, hd⟩ := hs.decent hk
    exact (hd.saved p' hp').1
  have hfd : (w.modifyFiber p.value fun s => { s with phase := .taken, cancelling := true }).fiberD
      p'.value = if p.value = p'.value then
        { w.fiberD p'.value with phase := .taken, cancelling := true } else w.fiberD p'.value := by
    rw [fiberD_eq, World.modifyFiber, fiberD_eq]
    simp only [Array.getElem?_modify, Array.getElem?_eq_getElem hlt]
    split <;> rfl
  rw [hfd]
  split
  · rename_i he
    obtain rfl := hs.pins _ _ _ _ _ _ hg hk hp hp' he
    obtain rfl : k = g := Option.some.inj (hk.symm.trans hg)
    exact .inr ⟨trivial, rfl, ht⟩
  · exact .inl (.refl _)

end Staging

theorem living?_modifyGreenlet (q : Ref) (F : Greenlet → Greenlet) :
    (w.modifyGreenlet r F).living? q = if r = q then (w.living? q).map F else w.living? q := by
  unfold living? World.modifyGreenlet
  rw [object?_modifyObject]
  split
  · cases w.object? q with
    | none => rfl
    | some o =>
      obtain ⟨n, v⟩ := o
      cases v <;> simp only [Option.map_some, Option.bind_some] <;> split <;> rfl
  · rfl

theorem Covered.demand_of_sole (hc : Covered hand w) (hs : .sole r ∈ hand) (ho : .object r ∈ hand) :
    w.demand (.object r) = 0 := by
  have h₁ := List.count_pos_iff.mpr hs
  have h₂ := List.count_pos_iff.mpr ho
  have := (hc.sole_le_one (r := r)).2 (by omega)
  omega

theorem Steady.bury (hs : Steady A hand m w) {g : Greenlet} (hg : w.greenlet? r = some g)
    (hmain : g.isMain = false) (hrun : g.run = none) (ho : (w.hub g.hub).closed = false)
    (ht : (w.hub g.hub).thread = w.active) (h₀ : w.demand (.object r) = 0)
    (hcore : (w'.hub g.hub).core = (w.hub g.hub).core)
    (hliv : w'.living? = (w.modifyGreenlet r fun g => { g with state := .dead, fiber := none }).living?)
    (hF : ∀ q k p, w.greenlet? q = some k → k.fiber = some p → q ≠ r →
      w'.fiberD p.value = w.fiberD p.value)
    (hoff : ∀ f, (w.fiberD f).isTaken = true ∧ (w.fiberD f).cancelling = true →
      (w'.fiberD f).isTaken = true ∧ (w'.fiberD f).cancelling = true) :
    (w'.scene g.hub m .plain).Fine A g.hub := by
  obtain ⟨n, hob, hd⟩ := hs.staging.decent hg
  have hf := (hs.staging.staged g.hub hd.hub m .plain (by rw [Shows, if_pos ht])).fine ho
  have hdisp : (w.hub g.hub).disposed = false := by
    by_contra h
    rw [(hs.staging.hubs g.hub hd.hub).disposed (by simpa using h)] at ho
    cases ho
  have hspare := spare_of_main hd.hub hdisp
  have hne {q : Ref} (hq : 0 < w.demand (.object q)) : r ≠ q := by
    rintro rfl
    omega
  have hdem (q : Ref) (hq : 0 < w.spare q) : 0 < w.demand (.object q) := by
    rw [demand_object]
    omega
  rw [scene, hcore]
  refine Scene.Fine.bury (t := r) (F := w.fiberD) (G := w.living?) hf (hne (hdem _ hspare.2))
    (hne (hdem _ hspare.1)) (fun f hturn => ?_) (fun q k p hq _ hp hqr => hF q k p
      (greenlet?_of_living hq) hp hqr) hoff fun q k' hq hk => ?_
  · have hmem := ((Mode.mem_tokens hs.mode).1 r f hturn).1
    exact absurd rfl (hne (Covered.demand_of_thread hs.seated.getElem? (by simp [Thread.tokens, hmem])))
  · rw [hliv, living?_modifyGreenlet] at hq
    split at hq
    · rename_i hrq
      subst hrq
      obtain ⟨k, hk₀, rfl⟩ := Option.map_eq_some_iff.mp hq
      obtain rfl : k = g := Option.some.inj ((greenlet?_of_living hk₀).symm.trans hg)
      refine ⟨k, hk₀, rfl, ?_⟩
      simp only [if_true, hrun]
    · refine ⟨k', hq, hk, ?_⟩
      have hqr : ¬ q = r := fun he => ‹¬ r = q› he.symm
      simp only [if_neg hqr]

theorem destroy_rested {k : Control Task} {b : Bool} :
    (∀ entry discard, (k.fiberD f).phase = .fresh entry discard →
      (k.destroy f b).2 = false ∧
      (k.destroy f b).1.stack = discard.map .task ++ k.stack ∧
      (k.destroy f b).1.fibers = k.fibers.modify f fun s => { s with phase := .taken }) ∧
    (∀ st, (k.fiberD f).phase = .parked st → (k.destroy f b).2 = !b ∧
      (k.destroy f b).1.stack =
        (if b then k.stack else st ++ .base f true :: k.stack) ∧
      (k.destroy f b).1.fibers = k.fibers.modify f fun s => { s with phase := .taken }) := by
  constructor
  · intro entry discard hp
    rw [Control.destroy, hp]
    exact ⟨rfl, rfl, rfl⟩
  · intro st hp
    rw [Control.destroy, hp]
    cases b <;> exact ⟨rfl, rfl, rfl⟩

theorem mode_released {g : Ground} {below : List (Item Task)} (hg : g.isCalm = true)
    (h₀ : Mode.of below = some ⟨g, .none⟩) {l : List Task} (ht : ∀ t ∈ l, t.role = .code) :
    Mode.of (l.map .task ++ .task (.released h r) :: below) = some ⟨g, .bare r⟩ := by
  refine Mode.of_push rfl (fun t hm => .inl (ht t hm)) (Mode.of_cons_of h₀ ?_)
  simp [Mode.step, Task.role, hg]

theorem Steady.release_bare (hs : Steady A [.object r, .sole r] m w) (hm : m.isOpen = true)
    {g : Greenlet} (hg : w.greenlet? r = some g) (hf : g.fiber = none) (hmain : g.isMain = false)
    (hrun : g.run = none) (ht : (w.hub g.hub).thread = w.active) :
    Sound A ((w.modifyGreenlet r fun g => { g with state := .dead, fiber := none }).push
      [.drop r]) := by
  obtain ⟨n, hob, hd⟩ := hs.staging.decent hg
  have hl : Later w (w.modifyGreenlet r fun g => { g with state := .dead, fiber := none }) :=
    .modifyGreenlet r fun _ _ => ⟨rfl, rfl, rfl, rfl, fun _ => rfl, id⟩
  have h₀ := hs.covered.demand_of_sole (r := r) (by simp) (by simp)
  obtain ⟨hx, hown⟩ := hs.staging.exempt
  have hst := hx.kill hg ht (by simp [hf])
  have hc : Covered [.object r, .sole r]
      (w.modifyGreenlet r fun g => { g with state := .dead, fiber := none }) := by
    refine hs.covered.modifyGreenlet (fun k hk x => ?_) fun _ _ => Nat.le_refl _
    obtain rfl : k = g := Option.some.inj (hk.symm.trans hg)
    simp [Greenlet.tokens, hf]
  have hadm := hst.reinstate (m := m) (e := .plain) fun k hk hkt => by
    obtain rfl : k = g.hub := hs.staging.unique _ _ hk hd.hub (hkt.trans ht.symm)
    have ho := hown g.hub hd.hub ht
    refine ⟨ho.shut, ho.home, fun hc => ?_⟩
    exact hs.bury hg hmain hrun hc ht h₀ rfl rfl (fun _ _ _ _ _ _ => rfl) fun _ h => h
  have hs' : Steady A [.object r, .sole r] m
      (w.modifyGreenlet r fun g => { g with state := .dead, fiber := none }) :=
    hs.same hadm hc hl rfl rfl
  refine (hs'.pushFree hm rfl fun k => ?_).sound
  simp [Task.tokens, List.count_cons]

/-- A release of a greenlet that has a stack, up to where the stack is destroyed. -/
def preparing (h : HubId) (r : Ref) (f : FiberId) (message : String) (w : World) : World :=
  (((((w.modifyGreenlet r fun g => { g with state := .dead, fiber := none }).modifyHub h fun s =>
    { s with releasing := true }).debug message).push [.unshare f, .released h r]).modifyFiber f
      fun s => { s with cancelling := true }).push [.settle f]

section

variable {g : Greenlet} {message : String}

theorem beside_preparing (hw : w.Seated) (i : HubId) : Beside w (w.preparing i r f message) := by
  unfold preparing
  have h₁ := (Beside.modifyGreenlet (w := w) r fun g => { g with state := .dead, fiber := none }).trans
    (.modifyHub i fun s => { s with releasing := true })
  have hw₁ : ((w.modifyGreenlet r fun g => { g with state := .dead, fiber := none }).modifyHub i
    fun s => { s with releasing := true }).Seated := hw
  generalize (w.modifyGreenlet r fun g => { g with state := .dead, fiber := none }).modifyHub i
    (fun s => { s with releasing := true }) = u at h₁ hw₁
  have hq : Quiet u (u.debug message) := .write _ _
  have h₂ := h₁.trans (.of_quiet hq)
  have hw₂ := hq.seated hw₁
  generalize u.debug message = v at h₂ hw₂
  have h₃ := h₂.trans (.push hw₂ [.unshare f, .released i r])
  have hw₃ : (v.push [.unshare f, .released i r]).Seated := (seated_modifyThread _).mpr hw₂
  generalize v.push [.unshare f, .released i r] = x at h₃ hw₃
  have h₄ := h₃.trans (.modifyFiber f fun s => { s with cancelling := true })
  have hw₄ : (x.modifyFiber f fun s => { s with cancelling := true }).Seated := hw₃
  generalize x.modifyFiber f (fun s => { s with cancelling := true }) = y at h₄ hw₄
  exact h₄.trans (.push hw₄ _)

theorem Steady.covered_preparing (hs : Steady A [.object r, .sole r] m w)
    (hg : w.greenlet? r = some g) (hf : g.fiber = some ⟨w.active, f⟩) (i : HubId) :
    Covered [] (w.preparing i r f message) := by
  unfold preparing
  have h₁ : Covered [.fiber f, .object r, .sole r]
      (w.modifyGreenlet r fun g => { g with state := .dead, fiber := none }) := by
    refine hs.covered.modifyGreenlet (fun k hk x => ?_) fun hn => by rw [hg] at hn; cases hn
    obtain rfl : k = g := Option.some.inj (hk.symm.trans hg)
    simp only [Greenlet.tokens, hf, Option.map_some, Option.map_none, Option.getD_some,
      Option.getD_none, Pinned.tokens, List.count_append, List.count_cons, List.count_nil]
    omega
  have hw₁ : (w.modifyGreenlet r fun g => { g with state := .dead, fiber := none }).Seated :=
    hs.seated
  generalize w.modifyGreenlet r (fun g => { g with state := .dead, fiber := none }) = u at h₁ hw₁
  have h₂ : Covered [.fiber f, .object r, .sole r]
      (u.modifyHub i fun s => { s with releasing := true }) :=
    Covered.modifyHub_of_eq (fun _ => ⟨rfl, rfl, rfl⟩) h₁
  have hw₂ : (u.modifyHub i fun s => { s with releasing := true }).Seated := hw₁
  generalize u.modifyHub i (fun s => { s with releasing := true }) = v at h₂ hw₂
  have hq : Quiet v (v.debug message) := .write _ _
  have h₃ := h₂.quiet hq
  have hw₃ := hq.seated hw₂
  generalize v.debug message = x at h₃ hw₃
  have h₄ : Covered [.sole r] (x.push [.unshare f, .released i r]) := h₃.push hw₃ fun k => by
    simp [Task.tokens, List.count_cons]
    omega
  have hw₄ : (x.push [.unshare f, .released i r]).Seated := (seated_modifyThread _).mpr hw₃
  generalize x.push [.unshare f, .released i r] = y at h₄ hw₄
  have h₅ : Covered [.sole r] (y.modifyFiber f fun s => { s with cancelling := true }) :=
    h₄.modifyFiber hw₄ (fun _ => rfl) fun _ => rfl
  have hw₅ : (y.modifyFiber f fun s => { s with cancelling := true }).Seated := hw₄
  generalize y.modifyFiber f (fun s => { s with cancelling := true }) = z at h₅ hw₅
  exact h₅.push hw₅ fun k => by simp [Task.tokens]

theorem stack_push (hw : w.Seated) (ts : List Task) :
    (w.push ts).thread.stack = ts.map .task ++ w.thread.stack :=
  congrArg Thread.stack (thread_modifyThread hw _)

theorem stack_preparing (hw : w.Seated) (i : HubId) : (w.preparing i r f message).thread.stack =
    [Task.settle f, .unshare f, .released i r].map .task ++ w.thread.stack := by
  unfold preparing
  have h₁ : ((w.modifyGreenlet r fun g => { g with state := .dead, fiber := none }).modifyHub i
    fun s => { s with releasing := true }).thread.stack = w.thread.stack := rfl
  have hw₁ : ((w.modifyGreenlet r fun g => { g with state := .dead, fiber := none }).modifyHub i
    fun s => { s with releasing := true }).Seated := hw
  generalize (w.modifyGreenlet r fun g => { g with state := .dead, fiber := none }).modifyHub i
    (fun s => { s with releasing := true }) = u at h₁ hw₁
  have hq : Quiet u (u.debug message) := .write _ _
  have h₂ := (hq.thread hw₁).1
  have hw₂ := hq.seated hw₁
  generalize u.debug message = v at h₂ hw₂
  have hw₃ : ((v.push [.unshare f, .released i r]).modifyFiber f
      fun s => { s with cancelling := true }).Seated := (seated_modifyThread _).mpr hw₂
  rw [stack_push hw₃]
  change [Item.task (.settle f)] ++ (v.push [.unshare f, .released i r]).thread.stack = _
  rw [stack_push hw₂, h₂, h₁]
  rfl

end

theorem Steady.release_of (hs : Steady A [.object r, .sole r] m w) {ground : Ground}
    (hmode : m = ⟨ground, .none⟩) {g : Greenlet}
    (hg : w.greenlet? r = some g) (hf : g.fiber = some ⟨w.active, f⟩) (hmain : g.isMain = false)
    (hrun : g.run = none) (ht : (w.hub g.hub).thread = w.active) (hb : Beside w w')
    (hhubs : w'.hubs = (w.modifyHub g.hub fun s => { s with releasing := true }).hubs)
    (hheap : w'.heap = (w.modifyGreenlet r fun g => { g with state := .dead, fiber := none }).heap)
    (hfib : w'.fibers = (w.modifyFiber f fun s => { s with phase := .taken, cancelling := true }).fibers)
    {u : Unwinding} (hu : Mode.of w'.thread.stack = some ⟨ground, u⟩)
    (hbare : u = .bare r ∨ ∃ x, u = .off r f x ∧ x ≠ .resumed)
    (he : Item.edge w'.thread.stack = .plain) (hc : Covered [] w')
    (hfil : Item.Filed w' (w'.active - 1) w'.thread.stack) : Sound A w' := by
  obtain ⟨n, hob, hd⟩ := hs.staging.decent hg
  obtain ⟨hx, hown⟩ := hs.staging.exempt
  have hw := hs.seated
  have h₀ := hs.covered.demand_of_sole (r := r) (by simp) (by simp)
  have hopen : (w.hub g.hub).closed = false := by
    by_contra hcl
    rw [hd.shut (by simpa using hcl)] at hf
    cases hf
  have hflt : f < w.fibers.size := (hd.saved _ hf).1
  have h₁ := hx.take hg hf ht
  have h₂ := h₁.kill (g := g) hg ht fun p hp => by
    obtain rfl : p = ⟨w.active, f⟩ := Option.some.inj (hp.symm.trans hf)
    rw [fiberD_eq, World.modifyFiber]
    simp [Array.getElem?_modify, Array.getElem?_eq_getElem hflt, Fiber.isOver]
  have h₃ := h₂.modifyHub (k := g.hub) (f := fun s => { s with releasing := true })
    (fun _ => ⟨rfl, rfl, rfl⟩) (fun o => { o with }) (fun _ _ _ _ _ hr => hr) (.inl ⟨rfl, ht⟩)
  have hb' (v : World) (ht : w.threads = v.threads) (ha : w.active = v.active)
      (hn : w.named = v.named) : Beside v w' := (Beside.of_threads ht ha hn).trans hb
  have h₄ := h₃.congr (hb' _ rfl rfl rfl) hhubs hheap hfib
  have hhub : w'.hub g.hub = { w.hub g.hub with releasing := true } := by
    rw [World.hub, hhubs]
    exact (hub_modifyHub g.hub g.hub _ hd.hub).trans (if_pos rfl)
  have hsize : w'.hubs.size = w.hubs.size := by
    rw [hhubs]
    simp [World.modifyHub]
  have hfd (q : FiberId) : w'.fiberD q =
      (w.modifyFiber f fun s => { s with phase := .taken, cancelling := true }).fiberD q := by
    rw [fiberD_eq, hfib, ← fiberD_eq]
  have hfd' (q : FiberId) : w'.fiberD q = if f = q then
      { w.fiberD q with phase := .taken, cancelling := true } else w.fiberD q := by
    rw [hfd, fiberD_eq, World.modifyFiber, fiberD_eq]
    simp only [Array.getElem?_modify]
    split
    · rename_i he
      subst he
      simp [Array.getElem?_eq_getElem hflt]
    · rfl
  have hobj : w'.object? =
      (w.modifyGreenlet r fun g => { g with state := .dead, fiber := none }).object? := by
    funext q
    rw [World.object?, hheap, ← World.object?]
  have hliv : w'.living? =
      (w.modifyGreenlet r fun g => { g with state := .dead, fiber := none }).living? := by
    funext q
    rw [living?, hobj, ← living?]
  have hF (q : Ref) (k : Greenlet) (p : Pinned FiberId) (hk : w.greenlet? q = some k)
      (hp : k.fiber = some p) (hqr : q ≠ r) : w'.fiberD p.value = w.fiberD p.value := by
    rw [hfd', if_neg]
    exact fun he => hqr (hs.staging.pins _ _ _ _ _ _ hk hg hp hf he.symm)
  have hoff (q : FiberId) (hq : (w.fiberD q).isTaken = true ∧ (w.fiberD q).cancelling = true) :
      (w'.fiberD q).isTaken = true ∧ (w'.fiberD q).cancelling = true := by
    rw [hfd']
    split
    · exact ⟨rfl, rfl⟩
    · exact hq
  have hbury : (({ w' with hubs := w.hubs } : World).scene g.hub m .plain).Fine A g.hub :=
    hs.bury hg hmain hrun hopen ht h₀ rfl hliv hF hoff
  refine Sound.of_own h₄ hc hu hfil (h := g.hub) ⟨by rw [hsize]; exact hd.hub, ?_⟩ ⟨?_, ?_, ?_⟩
  · rw [hhub, hb.active]
    exact ht.trans (Nat.sub_add_cancel hw.1).symm
  · rw [hhub]
    exact fun h => absurd h (by simp [hopen])
  · rw [hhub, hb.homeAt]
    exact fun h => .inl (((hown g.hub hd.hub ht).home h).resolve_right (by simp))
  · intro _
    rw [scene, hhub, he]
    subst hmode
    refine Scene.Fine.unwinding (u := .none) (b := true) (G := w'.living?) hbury (fun _ => rfl)
      (fun _ => .inr ?_) (fun q i x hi => ?_) (fun q k hk _ hv => ?_) .refl
    · rcases hbare with rfl | ⟨y, rfl, hy⟩ <;> simp
    · rcases hbare with rfl | ⟨y, rfl, hy⟩
      · cases hi
      · cases hi
        have htk : (w'.fiberD f).isTaken = true ∧ (w'.fiberD f).cancelling = true := by
          rw [hfd', if_pos rfl]
          exact ⟨rfl, rfl⟩
        exact ⟨htk.1, htk.2, hy⟩
    · have hqr : r = q := by
        rcases hbare with rfl | ⟨y, rfl, hy⟩ <;> exact Option.some.inj hv
      subst hqr
      rw [hliv, living?_modifyGreenlet, if_pos rfl] at hk
      obtain ⟨k', -, rfl⟩ := Option.map_eq_some_iff.mp hk
      rfl

/-- Between the turns of the driver a fiber is at rest: it never ran, or has given control away. -/
theorem Steady.at_rest (hs : Steady A [.object r, .sole r] m w) (hcalm : m.ground.isCalm = true)
    {g : Greenlet} (hg : w.greenlet? r = some g) (hf : g.fiber = some ⟨w.active, f⟩)
    (ht : (w.hub g.hub).thread = w.active) :
    (∃ entry discard, (w.fiberD f).phase = .fresh entry discard) ∨
      ∃ st, (w.fiberD f).phase = .parked st ∧ Spot.walk (Spot.step f) st = some .resumed := by
  obtain ⟨n, hob, hd⟩ := hs.staging.decent hg
  have hopen : (w.hub g.hub).closed = false := by
    by_contra hcl
    rw [hd.shut (by simpa using hcl)] at hf
    cases hf
  obtain ⟨o, ho, hpos⟩ := hs.covered.object?_of_mem (r := r) (by simp)
  have hliv : w.living? r = some g := living?_eq_some_iff.mpr ⟨n, by
    rw [hob] at ho; cases ho; exact hpos, hob⟩
  have hst := (hs.staging.staged g.hub hd.hub m .plain (by rw [Shows, if_pos ht])).fine hopen
  have hpl := ((hst.suits r g hliv rfl).fiber _ hf).2.2
  simp only [scene] at hpl
  cases hp : (w.fiberD f).phase with
  | fresh entry discard => exact .inl ⟨entry, discard, rfl⟩
  | parked st =>
    simp only [hp] at hpl
    exact .inr ⟨st, rfl, hpl.2.2.2⟩
  | active =>
    simp only [hp] at hpl
    obtain ⟨x, hx⟩ := hpl.2.2
    rw [hx] at hcalm
    cases hcalm
  | ended =>
    simp only [hp] at hpl
    rw [hpl.2] at hcalm
    cases hcalm
  | taken => simp only [hp] at hpl

theorem Steady.release_stack (hs : Steady A [.object r, .sole r] m w) {ground : Ground}
    (hmode : m = ⟨ground, .none⟩) (hcalm : ground.isCalm = true) {g : Greenlet}
    (hg : w.greenlet? r = some g) (hf : g.fiber = some ⟨w.active, f⟩) (hmain : g.isMain = false)
    (hrun : g.run = none) (ht : (w.hub g.hub).thread = w.active)
    (hdr : Item.drains g.hub w.thread.stack = true) (message : String)
    (panicking : Bool) : Sound A ((w.preparing g.hub r f message).takeControl
      ((w.preparing g.hub r f message).control.destroy f panicking)) := by
  obtain ⟨n, hob, hd⟩ := hs.staging.decent hg
  have hw := hs.seated
  obtain ⟨hflt, hfiled⟩ := hd.saved _ hf
  rw [ht] at hfiled
  simp only at hflt hfiled
  have hown : w.Owned g.hub (w.active - 1) := ⟨hd.hub, ht.trans (Nat.sub_add_cancel hw.1).symm⟩
  have hrest := hs.at_rest (by rw [hmode]; exact hcalm) hg hf ht
  have hpcov : Covered [] (w.preparing g.hub r f message) := hs.covered_preparing hg hf g.hub
  have hpb : Beside w (w.preparing g.hub r f message) := beside_preparing hw g.hub
  have hpst : (w.preparing g.hub r f message).thread.stack =
    [Task.settle f, .unshare f, .released g.hub r].map .task ++ w.thread.stack := stack_preparing hw g.hub
  have hphubs : (w.preparing g.hub r f message).hubs =
    (w.modifyHub g.hub fun s => { s with releasing := true }).hubs := rfl
  have hpheap : (w.preparing g.hub r f message).heap =
    (w.modifyGreenlet r fun g => { g with state := .dead, fiber := none }).heap := rfl
  have hpfib : (w.preparing g.hub r f message).fibers =
    w.fibers.modify f fun s => { s with cancelling := true } := rfl
  generalize w.preparing g.hub r f message = u at *
  have hwu : u.Seated := (hpb.manned hs.staging.manned).seated
  have hph : (u.control.fiberD f).phase = (w.fiberD f).phase := by
    change (u.fiberD f).phase = _
    rw [fiberD_eq, hpfib, fiberD_eq]
    simp [Array.getElem?_modify, Array.getElem?_eq_getElem hflt]
  have hhon : u.control.Honest f := fun entry discard hp =>
    hs.staging.honest f entry discard (hph ▸ hp)
  have hcov : Covered [] (u.setControl (u.control.destroy f panicking).1) :=
    hpcov.setControl hwu fun x => by
      have h₁ := Control.claims_destroy hhon panicking x
      have h₂ := Control.backing_destroy (k := u.control) (f := f) panicking x
      omega
  have hb₁ : Beside w (u.setControl (u.control.destroy f panicking).1) := hpb.trans (.setControl hwu _)
  have hl₁ (v : World) (hv : Beside u v) (hh : v.hubs = u.hubs) (hp : v.heap = u.heap)
      (hk : v.fibers = (w.modifyFiber f fun s => { s with phase := .taken, cancelling := true }).fibers) :
      Later w v :=
    (((Later.modifyFiber f (g := fun s => { s with phase := .taken, cancelling := true })
      fun s => ⟨fun _ => rfl, fun _ => rfl, fun _ => rfl⟩).trans
      (.modifyGreenlet r (f := fun g => { g with state := .dead, fiber := none })
        fun _ _ => ⟨rfl, rfl, rfl, rfl, fun _ => rfl, id⟩)).trans
      (.modifyHub' g.hub (f := fun s => { s with releasing := true })
        fun _ => ⟨rfl, rfl, rfl⟩)).trans
      (.of_eq (hh.trans hphubs) (hp.trans hpheap) hk)
  have hmode₁ := hs.mode
  rw [hmode] at hmode₁
  have hstk (k : Control Task) : (u.setControl k).thread.stack = k.stack :=
    congrArg Thread.stack (thread_modifyThread (f := fun t => { t with stack := k.stack }) hwu)
  have hust : u.control.stack = [Task.settle f, .unshare f, .released g.hub r].map .task ++
    w.thread.stack := hpst
  have hbase : Mode.of ([Task.settle f, .unshare f, .released g.hub r].map .task ++
      w.thread.stack) = some ⟨ground, .bare r⟩ :=
    mode_released (l := [.settle f, .unshare f]) hcalm hmode₁ (by simp [Task.role])
  have htail (v : World) (hv : Later w v) (hvf : v.fibers = (w.modifyFiber f fun s =>
      { s with phase := .taken, cancelling := true }).fibers) : Item.Filed v (w.active - 1)
        ([Task.settle f, .unshare f, .released g.hub r].map .task ++ w.thread.stack) := by
    refine ⟨⟨(hv.fiberD hflt).1, ?_⟩, trivial, ⟨hown.later hv, hdr⟩, hs.filed.later hv⟩
    rw [fiberD_eq, hvf]
    simp [World.modifyFiber, Array.getElem?_modify, Array.getElem?_eq_getElem hflt, Fiber.isTaken]
  have htwice : u.control.fibers.modify f (fun s => { s with phase := .taken }) =
      (w.modifyFiber f fun s => { s with phase := .taken, cancelling := true }).fibers := by
    simp only [World.control, hpfib]
    apply Array.ext_getElem?
    intro i
    simp only [World.modifyFiber, Array.getElem?_modify]
    split <;> simp [Option.map_map, Function.comp_def]
  have hkills := destroy_rested (k := u.control) (f := f) (b := panicking)
  rw [htwice] at hkills
  have hbu : Beside u (u.setControl (u.control.destroy f panicking).1) := .setControl hwu _
  have hstv := hstk (u.control.destroy f panicking).1
  have hvf : (u.setControl (u.control.destroy f panicking).1).fibers =
    (u.control.destroy f panicking).1.fibers := rfl
  have hvh : (u.setControl (u.control.destroy f panicking).1).hubs = u.hubs := rfl
  have hvp : (u.setControl (u.control.destroy f panicking).1).heap = u.heap := rfl
  unfold takeControl
  generalize u.setControl (u.control.destroy f panicking).1 = v at *
  generalize u.control.destroy f panicking = k at *
  rcases hrest with ⟨entry, discard, hp⟩ | ⟨st, hp, hwalk⟩
  · obtain ⟨hflag, hks, hkf⟩ := hkills.1 entry discard (hph.trans hp)
    have hplain : discard.all Task.isPlain = true := by
      simp only [Fiber.Filed, hp] at hfiled
      exact hfiled.2.1
    have hl := hl₁ v hbu hvh hvp (hvf.trans hkf)
    rw [hflag]
    show Sound A v
    refine hs.release_of hmode hg hf hmain hrun ht hb₁ (hvh.trans hphubs) (hvp.trans hpheap)
      (hvf.trans hkf) (u := .bare r) ?_ (.inl rfl) ?_ hcov ?_
    · rw [hstv, hks, hust]
      exact Mode.of_push rfl (fun t h => .inl (Task.role_of_isPlain (List.all_eq_true.mp hplain t h)))
        hbase
    · rw [hstv, hks, hust]
      cases discard with
      | nil => rfl
      | cons t ts => cases t <;> first | rfl | cases hplain
    · rw [hstv, hks, hust, hb₁.active]
      exact (htail v hl (hvf.trans hkf)).pushPlain hplain
  · obtain ⟨hflag, hks, hkf⟩ := hkills.2 st (hph.trans hp)
    have hst : Item.Filed w (w.active - 1) st := by
      simpa only [Fiber.Filed, hp] using hfiled
    have hl := hl₁ v hbu hvh hvp (hvf.trans hkf)
    rw [hflag]
    cases panicking with
    | true =>
      rw [if_pos rfl] at hks
      show Sound A v
      refine hs.release_of hmode hg hf hmain hrun ht hb₁ (hvh.trans hphubs) (hvp.trans hpheap)
        (hvf.trans hkf) (u := .bare r) ?_ (.inl rfl) ?_ hcov ?_
      · rw [hstv, hks, hust]
        exact hbase
      · rw [hstv, hks, hust]
        rfl
      · rw [hstv, hks, hust, hb₁.active]
        exact htail v hl (hvf.trans hkf)
    | false =>
      rw [if_neg Bool.false_ne_true] at hks
      show Sound A (v.fail .cancel)
      have hwv : v.Seated := (hb₁.manned hs.staging.manned).seated
      have hlf : Later v (v.fail .cancel) := .of_eq rfl rfl rfl
      have hbf : Beside v (v.fail .cancel) :=
        (Beside.push hwv [.fail .cancel]).trans (.modifyThread ((seated_modifyThread _).mpr hwv)
          fun _ => ⟨rfl, rfl⟩)
      have hcf : Covered [] (v.fail .cancel) :=
        (Effect.fail .cancel).covered hwv (by simp) hcov
      have hsf : (v.fail .cancel).thread.stack = .task (.fail .cancel) :: (st ++ .base f true ::
          ([Task.settle f, .unshare f, .released g.hub r].map .task ++ w.thread.stack)) := by
        rw [Steady.stack_fail hwv, hstv, hks, hust]
      refine hs.release_of hmode hg hf hmain hrun ht (hb₁.trans hbf) (hvh.trans hphubs)
        (hvp.trans hpheap) (hvf.trans hkf) (u := .off r f .code) ?_ (.inr ⟨_, rfl, (by simp)⟩) ?_ hcf ?_
      · rw [hsf]
        refine Mode.of_cons_of (show Mode.of _ = some ⟨ground, .off r f .resumed⟩ from ?_) rfl
        rw [Mode.of_append, Mode.of_cons_of hbase (m := ⟨ground, .off r f .landed⟩) rfl]
        exact Mode.upon_off ground r f (Spot.walk_unwind hwalk (by simp))
      · rw [hsf]
        rfl
      · rw [hsf, hbf.active, hb₁.active]
        exact ⟨trivial, (hst.later (hl.trans hlf)).append
          (htail _ (hl.trans hlf) (hvf.trans hkf))⟩

theorem Steady.fiber_owner (hs : Steady A hand m w) {g : Greenlet} {p : Pinned FiberId}
    (hg : w.greenlet? r = some g) (hr : .object r ∈ hand) (hp : g.fiber = some p)
    (ht : (w.hub g.hub).thread = w.active) : p.owner = w.active := by
  obtain ⟨n, hob, hd⟩ := hs.staging.decent hg
  have hopen : (w.hub g.hub).closed = false := by
    by_contra hcl
    rw [hd.shut (by simpa using hcl)] at hp
    cases hp
  obtain ⟨o, ho, hpos⟩ := hs.covered.object?_of_mem hr
  have hliv : w.living? r = some g := living?_eq_some_iff.mpr ⟨n, by
    rw [hob] at ho; cases ho; exact hpos, hob⟩
  have hst := (hs.staging.staged g.hub hd.hub m .plain (by rw [Shows, if_pos ht])).fine hopen
  exact ((hst.suits r g hliv rfl).fiber p hp).1.trans ht

theorem release_eq {g : Greenlet} (hg : w.greenlet? r = some g)
    (hf : g.fiber = some ⟨w.active, f⟩) (ha : (w.fiberD f).isActive = false) :
    w.release h r = (w.preparing h r f ("greenlet " ++ g.id.text ++ ": unwinding stack")).takeControl
      ((w.preparing h r f ("greenlet " ++ g.id.text ++ ": unwinding stack")).control.destroy f
        (w.preparing h r f ("greenlet " ++ g.id.text ++ ": unwinding stack")).isPanicking) := by
  have hp (v : World) (hv : v.active = w.active) :
      (Pinned.mk w.active f).get? v.active = some f := by
    rw [hv]
    exact if_pos rfl
  unfold World.release
  rw [greenlet_of_some hg]
  dsimp only
  rw [hf]
  dsimp only
  rw [hp ((w.modifyGreenlet r _).modifyHub h _) rfl]
  change unwind f _ = _
  unfold unwind
  change (if (w.fiberD f).isActive = true then _ else _) = _
  rw [if_neg (by simp [ha])]
  rfl

theorem Steady.release (hs : Steady A [.object r, .sole r] m w) (hm : m.unwinding = .none)
    (hcalm : m.ground.isCalm = true) (ho : w.Owned h (w.active - 1)) (hsp : w.Spent r h)
    (hdr : Item.drains h w.thread.stack = true) : Sound A (w.release h r) := by
  obtain ⟨o, hob, -⟩ := hs.covered.object?_of_mem (r := r) (by simp)
  obtain ⟨g, hv, rfl, hmain, hrun⟩ := hsp.2 o hob
  have hg : w.greenlet? r = some g := by
    simp [World.greenlet?, hob, hv, Value.greenlet?]
  have ht : (w.hub g.hub).thread = w.active := ho.2.trans (Nat.sub_add_cancel hs.seated.1)
  obtain ⟨ground, u⟩ := m
  obtain rfl : u = .none := hm
  have hopen : (Mode.mk ground .none).isOpen = true := by
    cases ground <;> first | rfl | cases hcalm
  cases hf : g.fiber with
  | none =>
    have := hs.release_bare hopen hg hf hmain hrun ht
    simpa only [World.release, greenlet_of_some hg, hf] using this
  | some p =>
    obtain ⟨owner, f⟩ := p
    obtain rfl : owner = w.active := hs.fiber_owner hg (by simp) hf ht
    have hact : (w.fiberD f).isActive = false := by
      rcases hs.at_rest hcalm hg hf ht with ⟨entry, discard, hp⟩ | ⟨st, hp, -⟩ <;>
        simp [Fiber.isActive, hp]
    rw [release_eq hg hf hact]
    exact hs.release_stack rfl hcalm hg hf hmain hrun ht hdr _ _

theorem Staging.released {g : Ground} (hs : Staging A (some (⟨g, .bare r⟩, .plain)) w)
    (hc : Covered [.object r] w) (hm : Mode.of w.thread.stack = some ⟨g, .none⟩)
    (hcalm : g.isCalm = true) (hf : Item.Filed w (w.active - 1) w.thread.stack)
    (ho : w.Owned h (w.active - 1)) : Sound A (w.released h r) := by
  have hact : (w.hub h).thread = w.active := ho.2.trans (Nat.sub_add_cancel hs.seated.1)
  have hst := hs.staged h ho.1 _ _ (by rw [Shows, if_pos hact])
  have hopen : (w.hub h).closed = false := by
    by_contra hcl
    cases hst.shut (by simpa using hcl)
  have hout : (w.hub h).outgoing = none :=
    (hst.fine hopen).outgoing (by cases g <;> first | rfl | cases hcalm)
  have hcore : ({ w.hub h with releasing := false, outgoing := none } : Hub).core =
      { (w.hub h).core with releasing := false } := by simp [Hub.core, hout]
  have h₁ : Staging A (some (⟨g, .none⟩, .plain))
      (w.modifyHub h fun s => { s with releasing := false, outgoing := none }) := by
    refine hs.shift (hs.exempt.1.modifyHub (fun _ => ⟨rfl, rfl, rfl⟩)
      (fun o => { o with posted := (by simp) }) (fun _ _ _ _ _ hr => hr) (.inl ⟨rfl, hact⟩))
      (.modifyHub _ _) (by simp [World.modifyHub]) ho ?_ ?_ (by simp) (fun hcl => ?_) fun _ hfine => ?_
    · rw [hub_modifyHub _ _ _ ho.1, if_pos rfl]
    · rw [hub_modifyHub _ _ _ ho.1, if_pos rfl]
    · rw [hopen] at hcl; cases hcl
    · rw [scene_modifyHub ho.1, hcore]
      exact hfine.unwinding (fun h => absurd rfl h) (by simp) (fun _ _ _ hx => by cases hx)
        (fun _ _ _ _ hr => by cases hr) .refl
  have hc₁ : Covered [.object r]
      (w.modifyHub h fun s => { s with releasing := false, outgoing := none }) := by
    refine hc.modifyHub (fun s hs' k => ?_) fun _ _ => Nat.le_refl _
    have hk : s.outgoing = none := by rw [← hub_of_some hs']; exact hout
    have hsup : Hub.supply { s with releasing := false, outgoing := none } h k = s.supply h k := by
      cases k <;> rfl
    rw [hsup]
    simp [Hub.tokens, hk]
  have h₂ : Steady A [.object r] ⟨g, .none⟩
      (w.modifyHub h fun s => { s with releasing := false, outgoing := none }) :=
    ⟨h₁, hc₁, hm, hf.later (.modifyHub' h fun _ => ⟨rfl, rfl, rfl⟩)⟩
  have hopen' : (Mode.mk g .none).isOpen = true := by
    cases g <;> first | rfl | cases hcalm
  have h₃ : Steady A [] ⟨g, .none⟩ _ := (h₂.stats h fun s => { s with
    released := s.released + 1 }).pushFree (l := [.drop r]) hopen' rfl fun k => by
      simp [Task.tokens]
  rw [World.released, hout]
  exact h₃.sound

theorem Staging.reunwind {g : Ground} {u u' : Unwinding} (hs : Staging A (some (⟨g, u⟩, .plain)) w)
    (ho : w.Owned h (w.active - 1)) (hu : u ≠ .none) (hA : u' = .none → A)
    (hoff : ∀ r f x, u' = .off r f x → x ≠ .resumed ∧ ∃ y, u = .off r f y)
    (hv : ∀ r, u'.victim? = some r → u.victim? = some r) :
    Staging A (some (⟨g, u'⟩, .plain)) w := by
  refine hs.shift hs.exempt.1 (.of_threads rfl rfl rfl) rfl ho rfl rfl nofun (fun _ hi => ?_)
    fun _ hfine => ?_
  · exact absurd (congrArg Mode.unwinding hi) hu
  · refine hfine.unwinding (b := (w.hub h).core.releasing) (fun _ => hfine.releasing hu)
      (fun _ => (em (u' = .none)).imp hA id) (fun r f x hx => ?_) (fun r k hk hkh hr =>
        (hfine.suits r k hk hkh).victim (hv r hr)) .refl
    obtain ⟨hn, y, hy⟩ := hoff r f x hx
    obtain ⟨h₁, h₂, -⟩ := hfine.off r f y hy
    exact ⟨h₁, h₂, hn⟩

theorem Staging.landed {g : Ground} {x : Spot} (hs : Staging A (some (⟨g, .off r f x⟩, .plain)) w)
    (hc : Covered hand w) (hm : Mode.of w.thread.stack = some ⟨g, .bare r⟩)
    (hf : Item.Filed w (w.active - 1) w.thread.stack) :
    Steady A hand ⟨g, .bare r⟩ (w.modifyFiber f Fiber.settle) := by
  have hidle : (Mode.mk g (.bare r)) ≠ .idle := by rintro ⟨⟩
  obtain ⟨h, ho⟩ : ∃ h, w.Owned h (w.active - 1) := by
    by_contra hn
    exact hidle (Mode.idle_of_unowned hm hf (not_exists.mp hn))
  have hact : (w.hub h).thread = w.active := ho.2.trans (Nat.sub_add_cancel hs.seated.1)
  have hst := hs.staged h ho.1 _ _ (by rw [Shows, if_pos hact])
  have hopen : (w.hub h).closed = false := by
    by_contra hcl
    cases hst.shut (by simpa using hcl)
  obtain ⟨htk, hcan, -⟩ := (hst.fine hopen).off r f x rfl
  have hlt : f < w.fibers.size := by
    by_contra hn
    have hd : w.fiberD f = { phase := .taken } := by
      rw [fiberD_eq, Array.getElem?_eq_none (Nat.le_of_not_lt hn)]
      rfl
    change (w.fiberD f).cancelling = true at hcan
    rw [hd] at hcan
    cases hcan
  have h₁ : Steady A hand ⟨g, .bare r⟩ w :=
    ⟨hs.reunwind ho (by simp) (by simp) (by simp) fun _ h => h, hc, hm, hf⟩
  exact h₁.settle ⟨hlt, htk⟩

end World

end Switchyard
