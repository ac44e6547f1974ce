import Switchyard.Proofs.Facade.Steady
import Switchyard.Proofs.Ownership.Control

/-!
# Dropping references

No reference that code drops takes a stack from under a greenlet: whoever drops the last reference
to a greenlet that has a stack passes it on for release.
-/

namespace Switchyard

open World

def Task.isFree (t : Task) : Bool :=
  t.isPlain || match t with
    | dropPinned _ | destroy _ | reclaim _ | unlock | unshare _ | runBody .. => true
    | _ => false

theorem Task.role_of_isFree {t : Task} (h : t.isFree = true) : t.role = .code := by
  cases t <;> first | rfl | cases h

theorem Task.all_isFree_of_isPlain {ts : List Task} (h : ts.all Task.isPlain = true) :
    ts.all Task.isFree = true := by
  refine List.all_eq_true.mpr fun t ht => ?_
  simp [Task.isFree, List.all_eq_true.mp h t ht]

theorem Item.filed_free {w : World} {i : Nat} {ts : List Task} (h : ts.all Task.isFree = true) :
    Item.Filed w i (ts.map .task) := by
  induction ts with
  | nil => trivial
  | cons t ts ih =>
    simp only [List.all_cons, Bool.and_eq_true] at h
    refine ⟨?_, ih h.2⟩
    cases t <;> first | trivial | cases h.1

theorem Task.all_isFree_greenletParts (g : Greenlet) :
    (greenletParts g).all Task.isFree = true := by
  unfold greenletParts
  simp only [List.all_append, Bool.and_eq_true]
  refine ⟨⟨⟨all_isFree_of_isPlain (all_isPlain_toList_drop _), ?_⟩, ?_⟩, ?_⟩
  · cases g.run with
    | none => rfl
    | some run => exact all_isFree_of_isPlain (all_isPlain_dropRun run)
  · cases g.fiber <;> rfl
  · cases g.inbox with
    | none => rfl
    | some p => exact all_isFree_of_isPlain (all_isPlain_dropPayload p)

namespace World

variable {A : Prop} {w w' : World} {x : Option (Mode × Edge)} {m : Mode} {hand hand' : List Token}
  {f : FiberId} {r : Ref}

theorem Covered.demand_of_greenlet {g : Greenlet} (hg : w.greenlet? r = some g) {k : Token}
    (hk : k ∈ g.tokens) : 0 < w.demand k := by
  obtain ⟨n, ho⟩ := greenlet?_eq_some_iff.mp hg
  have hh : w.heap[r]? = some (some ⟨n, .greenlet g⟩) := by
    unfold object? at ho
    cases he : w.heap[r]? with
    | none => simp [he] at ho
    | some o => simpa [he] using ho
  have := le_total (fun o => (slotTokens o).count k) hh
  have hp : 0 < (slotTokens (some ⟨n, .greenlet g⟩)).count k := List.count_pos_iff.mpr hk
  unfold demand
  omega

theorem Covered.handles (hc : Covered hand w) (hf : 0 < w.demand (.fiber f) + hand.count (.fiber f)) :
    w.demand (.fiber f) + hand.count (.fiber f) ≤ (w.fiberD f).handles ∧ f < w.fibers.size := by
  have h := hc (.fiber f) rfl
  unfold supply at h
  cases hs : w.fibers[f]? with
  | none =>
    simp only [hs, Option.map_none, Option.getD_none] at h
    omega
  | some s =>
    rw [fiberD_of_some hs]
    refine ⟨by simpa [hs, Fiber.supply] using h, ?_⟩
    by_contra hn
    rw [Array.getElem?_eq_none (Nat.le_of_not_lt hn)] at hs
    cases hs

theorem Covered.count_of_grave (hc : Covered hand w) (hr : .grave r ∈ hand) {o : Object}
    (ho : w.object? r = some o) : o.count = 0 := by
  have h := hc (.grave r) rfl
  have hp := List.count_pos_iff.mpr hr
  by_contra hn
  simp only [supply, ho, Option.map_some, Option.getD_some, Object.supply, hn, and_false,
    if_false] at h
  omega

theorem modifyFiber_eq (hw : w.Seated) (g : Fiber Task → Fiber Task) :
    w.modifyFiber f g = w.setControl (w.control.modify f g) :=
  (setControl_control hw (·.modify f g) rfl).symm

theorem Covered.modifyFiber (hc : Covered hand w) (hw : w.Seated) {g : Fiber Task → Fiber Task}
    (hp : ∀ s : Fiber Task, (g s).phase = s.phase) (hh : ∀ s : Fiber Task, (g s).handles = s.handles) :
    Covered hand (w.modifyFiber f g) := by
  rw [modifyFiber_eq hw]
  refine hc.setControl hw fun k => ?_
  have := Control.claims_modify_le (k := w.control) (f := f) (g := g)
    (fun s _ x => Nat.le_of_eq (by rw [Fiber.tokens, hp, Fiber.tokens])) k
  rw [Control.backing_modify hh]
  omega

namespace Staging

theorem modifyFiber (hs : Staging A x w) {g : Fiber Task → Fiber Task}
    (hl : ∀ s : Fiber Task, s.Later (g s)) (hg : (∀ s : Fiber Task, s.Alike (g s)) ∨
      ∀ r k p, w.greenlet? r = some k → k.fiber = some p → p.value ≠ f) :
    Staging A x (w.modifyFiber f g) := by
  refine hs.fibers (.of_threads rfl rfl rfl) rfl rfl (.modifyFiber f hl)
    (by simp [World.modifyFiber]) fun r k p hk hp => .inl ?_
  have hd : (w.modifyFiber f g).fiberD p.value =
      ((if f = p.value then w.fibers[p.value]?.map g else w.fibers[p.value]?).getD
        { phase := .taken }) := by
    rw [fiberD_eq, World.modifyFiber]
    simp only [Array.getElem?_modify]
  rw [hd]
  obtain ⟨n, ho⟩ := greenlet?_eq_some_iff.mp hk
  have hlt := ((hs.greenlets r n k ho).saved p hp).1
  rw [fiberD_eq]
  split
  · rename_i he
    rw [Array.getElem?_eq_getElem hlt]
    exact (hg.resolve_right fun hn => hn r k p hk hp he.symm) _
  · exact .refl _

theorem over_of_last (hs : Staging A x w) (hc : Covered (.fiber f :: hand) w)
    (hn : (w.fiberD f).handles ≤ 1) :
    (w.fiberD f).isOver = true ∧
      ∀ r k p, w.greenlet? r = some k → k.fiber = some p → p.value ≠ f := by
  have hnone : ∀ r k p, w.greenlet? r = some k → k.fiber = some p → p.value ≠ f := by
    rintro r k p hk hp rfl
    have hd := Covered.demand_of_greenlet hk (k := .fiber p.value)
      (by simp [Greenlet.tokens, hp, Pinned.tokens])
    have := (hc.handles (f := p.value) (by omega)).1
    rw [List.count_cons_self] at this
    omega
  refine ⟨?_, hnone⟩
  by_contra ho
  have hlt := (hc.handles (f := f) (by rw [List.count_cons_self]; omega)).2
  obtain ⟨r, k, p, hk, hp, he⟩ := hs.held f hlt (by simpa using ho)
  exact hnone r k p hk hp he

theorem honest (hs : Staging A x w) (f : FiberId) : w.control.Honest f := by
  intro entry discard hp k
  change (w.fiberD f).phase = _ at hp
  have hlt : f < w.fibers.size := by
    by_contra hn
    rw [fiberD_eq, Array.getElem?_eq_none (Nat.le_of_not_lt hn)] at hp
    cases hp
  obtain ⟨r, g, p, hg, hpf, rfl⟩ := hs.held f hlt (by simp [Fiber.isOver, hp])
  obtain ⟨n, -, hd⟩ := hs.decent hg
  have hf := (hd.saved p hpf).2
  simp only [Fiber.Filed, hp] at hf
  exact hf.2.2 k

theorem unshare_eq (hs : Staging A x w) (hc : Covered (.fiber f :: hand) w) :
    (w.control.unshare f w.isPanicking).2 = false ∧
      (w.unshare f = (w.modifyFiber f fun s => { s with handles := s.handles - 1 }) ∨
      w.unshare f = ((w.modifyFiber f fun s => { s with handles := s.handles - 1 }).modifyFiber f
        fun s => { s with cancelling := true }).modifyFiber f (fun s => { s with phase := .taken }) ∧
        ∀ r k p, w.greenlet? r = some k → k.fiber = some p → p.value ≠ f) := by
  have hlt := (hc.handles (f := f) (by rw [List.count_cons_self]; omega)).2
  have hset (c : Control Task) (hcs : c.stack = w.thread.stack) (hcl : c.lost = w.lost) :
      w.setControl c = { w with fibers := c.fibers } := by
    have := setControl_control hs.seated (fun _ => c) hcs
    rw [this, hcl]
  have hd : (w.control.modify f fun s => { s with handles := s.handles - 1 }).fiberD f =
      { w.fiberD f with handles := (w.fiberD f).handles - 1 } := by
    simp only [Control.fiberD, Control.modify, World.fiberD, World.control, Array.getElem?_modify,
      if_pos, Array.getElem?_eq_getElem hlt]
    rfl
  unfold World.unshare Control.unshare takeControl
  simp only [hd]
  by_cases hn : (w.fiberD f).handles ≤ 1
  · obtain ⟨hov, hnone⟩ := hs.over_of_last hc hn
    rw [if_pos (show (w.fiberD f).handles - 1 = 0 by omega)]
    have hph : (((w.control.modify f fun s => { s with handles := s.handles - 1 }).modify f
        fun s => { s with cancelling := true }).fiberD f).phase = (w.fiberD f).phase := by
      simp only [Control.fiberD, Control.modify, World.fiberD, World.control,
        Array.getElem?_modify, if_pos, Array.getElem?_eq_getElem hlt]
      rfl
    unfold Control.destroy
    rw [hph]
    unfold Fiber.isOver at hov
    split at hov
    · simp only [‹(w.fiberD f).phase = _›]
      exact ⟨trivial, .inr ⟨hset _ rfl rfl, hnone⟩⟩
    · simp only [‹(w.fiberD f).phase = _›]
      exact ⟨trivial, .inr ⟨hset _ rfl rfl, hnone⟩⟩
    · cases hov
  · rw [if_neg (show ¬(w.fiberD f).handles - 1 = 0 by omega)]
    exact ⟨rfl, .inl (hset _ rfl rfl)⟩

private theorem later_handles (s : Fiber Task) :
    s.Later { s with handles := s.handles - 1 } := ⟨id, id, id⟩

theorem unshare (hs : Staging A x w) (hc : Covered (.fiber f :: hand) w) :
    Staging A x (w.unshare f) ∧ Covered hand (w.unshare f) ∧ Later w (w.unshare f) ∧
      (w.unshare f).active = w.active ∧ (w.unshare f).thread = w.thread := by
  have hcov : Covered hand (w.unshare f) := by
    obtain ⟨h₁, h₂⟩ := hc.handles (f := f) (by rw [List.count_cons_self]; omega)
    rw [List.count_cons_self] at h₁
    have hfib := Array.getElem?_eq_getElem h₂
    have hh : w.unshare f = w.setControl (w.control.unshare f w.isPanicking).1 := by
      unfold World.unshare takeControl
      rw [(hs.unshare_eq hc).1, if_neg (by simp)]
    rw [hh]
    refine hc.setControl hs.seated fun k => ?_
    have hcl := Control.claims_unshare (hs.honest f) w.isPanicking k
    have hbk := Control.backing_unshare (k := w.control) hfib w.isPanicking k
    rw [hbk]
    by_cases hk : k = .fiber f
    · subst hk
      rw [fiberD_of_some hfib] at h₁
      simp only [if_true, List.count_cons_self, Control.backing, World.control, hfib,
        Option.map_some, Option.getD_some] at hcl ⊢
      omega
    · rw [if_neg hk, List.count_cons_of_ne (fun h => hk h.symm)]
      omega
  have hl₂ (s : Fiber Task) : s.Later { s with cancelling := true } := ⟨id, id, fun _ => rfl⟩
  have hl₃ (s : Fiber Task) : s.Later { s with phase := .taken } :=
    ⟨fun _ => rfl, fun _ => rfl, id⟩
  rcases (hs.unshare_eq hc).2 with he | ⟨he, hn⟩
  · rw [he] at hcov ⊢
    exact ⟨hs.modifyFiber later_handles (.inl fun s => ⟨rfl, rfl, rfl, rfl, rfl⟩), hcov,
      .modifyFiber f later_handles, rfl, rfl⟩
  · rw [he] at hcov ⊢
    refine ⟨((hs.modifyFiber later_handles (.inr hn)).modifyFiber hl₂ (.inr hn)).modifyFiber hl₃
      (.inr hn), hcov, ?_, rfl, rfl⟩
    exact ((Later.modifyFiber f later_handles).trans (.modifyFiber f hl₂)).trans
      (.modifyFiber f hl₃)

end Staging

namespace Staging

theorem whole {y : Mode × Edge} (hs : Staging A (some y) w) {g : Greenlet} {p : Pinned FiberId}
    (hg : w.greenlet? r = some g) (hp : g.fiber = some p) :
    (w.fiberD p.value).isTaken = false := by
  obtain ⟨n, ho, hd⟩ := hs.decent hg
  have hn : 0 < n := Nat.pos_of_ne_zero fun h => by rw [hd.buried h] at hp; cases hp
  have hc : (w.hub g.hub).closed = false := by
    by_contra h
    rw [hd.shut (by simpa using h)] at hp
    cases hp
  obtain ⟨m, e, hsh⟩ : ∃ m e, w.Shows (some y) g.hub m e := by
    unfold Shows
    split
    · exact ⟨y.1, y.2, rfl⟩
    · obtain ⟨m, hm⟩ := (hs.elsewhere _ (hs.place_ne hd.hub ‹_›)).1
      exact ⟨m, _, hm, rfl⟩
  have hf := (hs.staged g.hub hd.hub m e hsh).fine hc
  obtain ⟨-, hP⟩ := (hf.suits r g (living?_eq_some_iff.mpr ⟨n, hn, ho⟩) rfl).fiber p hp
  change m.ground.Places A r p.value (w.fiberD p.value) at hP
  unfold Fiber.isTaken
  split
  · rename_i ht
    simp [Ground.Places, ht] at hP
  · rfl

theorem lives (hs : Staging A (some (m, .plain)) w) (hc : Covered hand w) {h : HubId}
    (hh : h < w.hubs.size) (ho : (w.hub h).closed = false) : w.hubLives h = true := by
  suffices hd : 0 < w.demand (.hub h) by
    obtain ⟨-, -, hp⟩ := hc.hub_of_demand (h := h) (by omega)
    simpa [hubLives] using hp
  obtain ⟨m', e, hsh⟩ : ∃ m' e, w.Shows (some (m, .plain)) h m' e := by
    unfold Shows
    split
    · exact ⟨m, _, rfl⟩
    · obtain ⟨m, hm⟩ := (hs.elsewhere _ (hs.place_ne hh ‹_›)).1
      exact ⟨m, _, hm, rfl⟩
  rcases (hs.staged h hh m' e hsh).home ho with hf | rfl
  · unfold World.homeAt at hf
    cases ht : w.threads[(w.hub h).thread - 1]? with
    | none => simp [ht] at hf
    | some t => exact Covered.demand_of_home ht (by simpa [ht] using hf)
  · unfold Shows at hsh
    split at hsh
    · cases hsh
    · obtain ⟨-, he⟩ := hsh
      have hfiled := (hs.elsewhere _ (hs.place_ne hh ‹_›)).2
      unfold World.stackAt at he hfiled
      cases ht : w.threads[(w.hub h).thread - 1]? with
      | none => simp [ht, Item.edge] at he
      | some t =>
        simp only [ht, Option.map_some, Option.getD_some] at he hfiled
        have hstk : ∃ rest, t.stack = .task (.teardown h) :: rest := by
          unfold Item.edge at he
          split at he <;> cases he
          exact ⟨_, ‹_›⟩
        obtain ⟨rest, hstk⟩ := hstk
        rw [hstk] at hfiled
        rcases hfiled.1 with hsd | ⟨-, rest', hr⟩
        · rw [hsd.2] at ho; cases ho
        · exact Covered.demand_of_thread ht (by simp [Thread.tokens, hstk, hr, Item.tokens, Task.tokens])

end Staging

namespace Steady

theorem unlock (hs : Steady A hand m w) : Steady A hand m w.unlock :=
  hs.same (hs.staging.congr (.of_threads rfl rfl rfl) rfl rfl rfl) hs.covered (.of_eq rfl rfl rfl)
    rfl rfl

theorem mint {k : Token} (hs : Steady A hand m w) (hk : k.isBacked = false) :
    Steady A (k :: hand) m w :=
  ⟨hs.staging, hs.covered.mint hk, hs.mode, hs.filed⟩

theorem trade (hs : Steady A hand m w) (hc : ∀ k, hand'.count k ≤ hand.count k) :
    Steady A hand' m w :=
  ⟨hs.staging, hs.covered.trade hc, hs.mode, hs.filed⟩

theorem reclaim (hs : Steady A (.grave r :: hand) m w) : Steady A hand m (w.reclaim r) := by
  have h := hs.same (hs.staging.erase fun g hg => ?_) hs.covered.erase (.erase r) rfl rfl
  · exact h.unlock
  · obtain ⟨n, ho, hd⟩ := hs.staging.decent hg
    exact hd.buried (hs.covered.count_of_grave List.mem_cons_self ho)

theorem unshare (hs : Steady A (.fiber f :: hand) m w) : Steady A hand m (w.unshare f) := by
  obtain ⟨h₁, h₂, h₃, h₄, h₅⟩ := hs.staging.unshare hs.covered
  exact hs.same h₁ h₂ h₃ h₄ (by rw [h₅])

theorem dropPinned (p : Pinned FiberId) (hs : Steady A (.fiber p.value :: hand) m w) :
    Steady A hand m (w.dropPinned p) := by
  unfold World.dropPinned
  split
  · rename_i f hf
    obtain ⟨-, rfl⟩ := Pinned.get?_eq_some_iff.mp hf
    exact hs.unshare
  · exact ⟨hs.staging, hs.covered.trade fun k => List.count_le_count_cons, hs.mode, hs.filed⟩

theorem settle (hs : Steady A hand m w) (hf : f < w.fibers.size ∧ (w.fiberD f).isTaken = true) :
    Steady A hand m (w.modifyFiber f Fiber.settle) := by
  have hl (s : Fiber Task) : s.Later s.settle := ⟨id, id, id⟩
  refine hs.same (hs.staging.modifyFiber hl (.inr fun r k p hk hp he => ?_))
    (hs.covered.modifyFiber hs.seated (fun _ => rfl) fun _ => rfl) (.modifyFiber f hl) rfl rfl
  have := hs.staging.whole hk hp
  rw [he, hf.2] at this
  cases this

theorem pushFree {hand' : List Token} (hs : Steady A hand m w) {l : List Task}
    (hm : m.isOpen = true) (ht : l.all Task.isFree = true)
    (hc : ∀ k, (Task.tokensOf l).count k + hand'.count k ≤ hand.count k) :
    Steady A hand' m (w.push l) :=
  hs.push hm (fun _ h => .inl (Task.role_of_isFree (List.all_eq_true.mp ht _ h)))
    ((Item.filed_free ht).append hs.filed) (hs.covered.push hs.seated hc)

theorem destroy (hs : Steady A (.grave r :: hand) m w) (hm : m.isOpen = true) :
    Steady A hand m (w.destroy r) := by
  have h₁ : Steady A (.grave r :: hand) m { w with lock := (w.lock.ensure? w.active).getD w.lock } :=
    hs.same (hs.staging.congr (.of_threads rfl rfl rfl) rfl rfl rfl) hs.covered (.of_eq rfl rfl rfl)
      rfl rfl
  unfold World.destroy
  generalize { w with lock := (w.lock.ensure? w.active).getD w.lock } = v at h₁
  simp only
  split
  · exact (h₁.mint (k := .urn r) rfl).pushFree hm rfl fun k => by
      simp [Task.tokens, List.count_cons]
      omega
  · have hq := Quiet.event (w := v) "drop" [.text ‹String›]
    have h₂ := h₁.same (h₁.staging.quiet hq) (h₁.covered.quiet hq) (.of_quiet hq) hq.active
      (hq.thread h₁.seated).1
    exact (h₂.mint (k := .urn r) rfl).pushFree hm rfl fun k => by
      simp [Task.tokens, List.count_cons]
      omega
  · rename_i g hv
    have hg : ∀ n k, v.object? r = some ⟨n, .greenlet k⟩ → k = g ∧ n = 0 := by
      intro n k ho
      refine ⟨?_, h₁.covered.count_of_grave List.mem_cons_self ho⟩
      simpa [valueD, ho] using hv
    have hl : Later v (v.modifyGreenlet r fun g =>
        { g with parent := none, run := none, fiber := none, inbox := none }) :=
      .modifyGreenlet r fun _ _ => ⟨rfl, rfl, rfl, rfl, id, fun _ => rfl⟩
    have hc : Covered (Task.tokensOf (greenletParts g) ++ .grave r :: hand)
        (v.modifyGreenlet r fun g =>
          { g with parent := none, run := none, fiber := none, inbox := none }) := by
      refine h₁.covered.modifyGreenlet (fun k hk x => ?_) fun hn => ?_
      · obtain ⟨n, ho⟩ := greenlet?_eq_some_iff.mp hk
        obtain ⟨rfl, -⟩ := hg n k ho
        rw [List.count_append, Task.count_tokensOf_greenletParts]
        simp [Greenlet.tokens]
      · cases ho : v.object? r with
        | none => simp [valueD, ho] at hv
        | some o =>
          obtain ⟨n, v'⟩ := o
          obtain rfl : v' = .greenlet g := by simpa [valueD, ho] using hv
          rw [greenlet?_eq_some_iff.mpr ⟨n, ho⟩] at hn
          cases hn
    have h₂ := h₁.same (h₁.staging.modifyGreenlet hl fun n k ho => ?_) hc hl rfl rfl
    · refine (h₂.mint (k := .urn r) rfl).pushFree hm ?_ fun k => ?_
      · simp only [List.all_append, Task.all_isFree_greenletParts]
        rfl
      · simp only [Task.tokensOf_append, List.count_append, List.count_cons]
        simp [Task.tokens, List.count_cons]
        omega
    · obtain ⟨rfl, rfl⟩ := hg n k ho
      have hd := h₁.staging.greenlets r 0 k ho
      refine ⟨rfl, ⟨hd.hub, hd.thread, (by simp), fun h => ⟨rfl, rfl, (hd.main h).2.2⟩,
        fun h => absurd rfl h, fun _ => rfl, fun _ => rfl, fun _ _ h => absurd h (Nat.lt_irrefl 0),
        fun _ _ h => absurd h (Nat.lt_irrefl 0), (by simp)⟩, .inl (hd.buried rfl).symm, fun h =>
        absurd h (Nat.lt_irrefl 0)⟩
  · exact (h₁.mint (k := .urn r) rfl).pushFree hm rfl fun k => by
      simp [Task.tokens, List.count_cons]
      omega

theorem calm_of_canRelease (hs : Steady A hand m w) (hm : m.isOpen = true) {h : HubId}
    (hh : h < w.hubs.size) (hr : w.canRelease h = true) :
    m.unwinding = .none ∧ m.ground.isCalm = true ∧ (w.hub h).thread = w.active := by
  simp only [canRelease, Bool.and_eq_true, beq_iff_eq, Bool.not_eq_true'] at hr
  obtain ⟨⟨⟨ht, hc⟩, hrun⟩, hrel⟩ := hr
  have hf := (hs.staging.staged h hh m .plain (by rw [Shows, if_pos ht])).fine hc
  have hu : m.unwinding = .none := by
    by_contra hn
    exact absurd ((hf.releasing hn).symm.trans hrel) (by simp)
  have hg : m.ground.isRunning = false := hf.running.symm.trans hrun
  refine ⟨hu, ?_, ht⟩
  obtain ⟨ground, u⟩ := m
  obtain rfl : u = .none := hu
  cases ground with
  | on => cases hg
  | _ => exact hm

theorem keep {g : Greenlet} (ho : w.object? r = some ⟨1, .greenlet g⟩) :
    (w.modifyObject r fun o => { o with count := o.count - 1 }).modifyObject r
      (fun o => { o with count := 1 }) = w := by
  have hh : w.heap[r]? = some (some ⟨1, .greenlet g⟩) := by
    unfold object? at ho
    cases he : w.heap[r]? with
    | none => simp [he] at ho
    | some o => simpa [he] using ho
  have : (w.heap.modify r (Option.map fun o : Object => { o with count := o.count - 1 })).modify r
      (Option.map fun o => { o with count := 1 }) = w.heap := by
    refine Array.ext_getElem? fun i => ?_
    simp only [Array.getElem?_modify]
    split
    · subst_vars
      simp [hh]
    · rfl
  simp only [World.modifyObject, this]

theorem debug (hs : Steady A hand m w) (message : String) : Steady A hand m (w.debug message) := by
  have hq : Quiet w (w.debug message) := .write _ _
  exact hs.same (hs.staging.quiet hq) (hs.covered.quiet hq) (.of_quiet hq) hq.active
    (hq.thread hs.seated).1

theorem stats (hs : Steady A hand m w) (h : HubId) (f : Stats → Stats) :
    Steady A hand m (w.modifyStats h f) :=
  hs.same (hs.staging.modifyHub (fun _ => ⟨rfl, rfl, rfl⟩) (fun o => { o with })
    (fun _ _ _ _ _ hr => hr) (.inr rfl)) (Covered.modifyHub_of_eq (fun _ => ⟨rfl, rfl, rfl⟩) hs.covered)
    (.modifyHub' h fun _ => ⟨rfl, rfl, rfl⟩) rfl rfl

theorem enqueue {g : Greenlet} (hs : Steady A (.object r :: .sole r :: hand) m w)
    (hg : w.greenlet? r = some g) (hf : g.fiber ≠ none) {f : Hub → Hub}
    (hq : ∀ s, f s = { s with deferred := s.deferred ++ [r] } ∨
      f s = { s with foreign := s.foreign ++ [r] }) :
    Steady A hand m (w.modifyHub g.hub f) := by
  obtain ⟨n, ho, hd⟩ := hs.staging.decent hg
  have hsame (s : Hub) : (f s).thread = s.thread ∧ (f s).main = s.main ∧ (f s).closed = s.closed := by
    rcases hq s with h | h <;> rw [h] <;> exact ⟨rfl, rfl, rfl⟩
  refine hs.same (hs.staging.modifyHub hsame (fun o => ?_) (fun q _ _ _ _ hr => ?_) ?_) ?_
    (.modifyHub' _ hsame) rfl rfl
  · have hsp : w.Spent r g.hub := by
      refine ⟨lt_size_of_object? ho, fun o ho' => ⟨g, ?_, rfl, (hd.spent hf).2, (hd.spent hf).1⟩⟩
      rw [ho] at ho'
      cases ho'
      rfl
    rcases hq (w.hub g.hub) with h | h <;> rw [h] <;>
      refine { o with queued := fun q hq => ?_ } <;>
      simp only [List.mem_append, List.mem_singleton] at hq
    · rcases hq with (hq | rfl) | hq
      · exact o.queued q (List.mem_append_left _ hq)
      · exact hsp
      · exact o.queued q (List.mem_append_right _ hq)
    · rcases hq with hq | hq | rfl
      · exact o.queued q (List.mem_append_left _ hq)
      · exact o.queued q (List.mem_append_right _ hq)
      · exact hsp
  · rcases hq (w.hub g.hub) with h | h <;> rw [h] <;> exact hr
  · rcases hq (w.hub g.hub) with h | h <;> rw [h] <;> exact .inr rfl
  · refine hs.covered.modifyHub (fun s hs' k => ?_) fun hn => ?_
    · have hsup : (f s).supply g.hub k = s.supply g.hub k := by
        rcases hq s with h | h <;> rw [h] <;> cases k <;> rfl
      rw [hsup]
      rcases hq s with h | h <;> rw [h] <;>
        simp only [Hub.tokens, List.flatMap_append, List.flatMap_cons, List.flatMap_nil,
          List.append_nil, Token.queued, List.count_append, List.count_cons] <;>
        simp only [List.count_nil] <;> omega
    · rw [Array.getElem?_eq_none_iff] at hn
      exact absurd hd.hub (Nat.not_lt.mpr hn)

theorem putUp {g : Greenlet} (hs : Steady A (.object r :: .sole r :: hand) m w)
    (hm : m.isOpen = true) (hg : w.greenlet? r = some g) (hf : g.fiber ≠ none)
    (ho : (w.hub g.hub).closed = false) (hr : w.canRelease g.hub = true) :
    Steady A hand m ((w.holdHub g.hub).push
      [.release g.hub r, .drain g.hub, .leaveHub g.hub]) := by
  obtain ⟨n, hob, hd⟩ := hs.staging.decent hg
  obtain ⟨hu, hcalm, ht⟩ := hs.calm_of_canRelease hm hd.hub hr
  have howned : w.Owned g.hub (w.active - 1) :=
    ⟨hd.hub, ht.trans (Nat.sub_add_cancel hs.seated.1).symm⟩
  have hhome : 0 < w.demand (.hub g.hub) := by
    have := (hs.staging.staged g.hub hd.hub m .plain (by rw [Shows, if_pos ht])).home ho
    have := this.resolve_right (by simp)
    rw [ht, homeAt_active hs.seated] at this
    exact Covered.demand_of_home hs.seated.getElem? this
  obtain ⟨-, hdis, hlive⟩ := hs.covered.hub_of_demand (Nat.add_pos_left hhome _)
  have hl : Later w (w.holdHub g.hub) := .modifyHub' g.hub fun _ => ⟨rfl, rfl, rfl⟩
  have h₁ : Steady A (.hub g.hub :: .object r :: .sole r :: hand) m (w.holdHub g.hub) :=
    hs.same (hs.staging.modifyHub (fun _ => ⟨rfl, rfl, rfl⟩) (fun o => { o with })
      (fun _ _ _ _ _ hr => hr) (.inr rfl)) (Covers.holdHub hdis hlive hs.covered) hl rfl rfl
  have hsp : w.Spent r g.hub := by
    refine ⟨lt_size_of_object? hob, fun o ho' => ⟨g, ?_, rfl, (hd.spent hf).2, (hd.spent hf).1⟩⟩
    rw [hob] at ho'
    cases ho'
    rfl
  have hst : ((w.holdHub g.hub).push [.release g.hub r, .drain g.hub, .leaveHub g.hub]).thread.stack =
      .task (.release g.hub r) :: .task (.drain g.hub) :: .task (.leaveHub g.hub) ::
        w.thread.stack := congrArg Thread.stack (thread_modifyThread h₁.seated _)
  refine ⟨h₁.staging.push _, h₁.covered.push h₁.seated fun k => ?_, ?_, ?_⟩
  · simp only [Task.tokensOf_cons, Task.tokens, Task.tokensOf_nil, List.count_append,
      List.count_cons, List.count_nil]
    omega
  · rw [hst]
    obtain ⟨ground, u⟩ := m
    obtain rfl : u = .none := hu
    refine Mode.of_cons_of (Mode.of_cons_of (Mode.of_cons_of hs.mode
      (Mode.step_code hm (.inl rfl))) (Mode.step_code hm (.inl rfl))) ?_
    cases ground <;> first | rfl | cases hcalm
  · rw [hst]
    have hlt : Later w ((w.holdHub g.hub).push [.release g.hub r, .drain g.hub,
      .leaveHub g.hub]) := hl.trans (.of_eq rfl rfl rfl)
    exact ⟨⟨howned.later hlt, hsp.later hlt, by simp [Item.drains]⟩, howned.later hlt,
      howned.later hlt, hs.filed.later hlt⟩

theorem releaseHook {g : Greenlet} (hs : Steady A (.object r :: hand) m w) (hm : m.isOpen = true)
    (ho : w.object? r = some ⟨1, .greenlet g⟩) (hns : .sole r ∉ hand) :
    Steady A hand m ((w.modifyObject r fun o => { o with count := o.count - 1 }).releaseHook r) := by
  have hgr := greenlet?_eq_some_iff.mpr ⟨1, ho⟩
  have hd := hs.staging.greenlets r 1 g ho
  have h₀ : w.demand (.sole r) + hand.count (.sole r) = 0 := by
    have := hs.covered.no_sole (.inr List.mem_cons_self) (r := r) (by simpa using hns)
    simpa using this
  have hc := hs.covered.release ho fun _ => h₀
  rw [if_pos (Nat.le_refl 1)] at hc
  have hkeep := keep ho
  have hk : Steady A (.object r :: .sole r :: hand) m w := by
    refine ⟨hs.staging, ?_, hs.mode, hs.filed⟩
    have := hc.revive (f := fun o => { o with count := 1 }) (fun _ => rfl) (fun _ _ => rfl)
    rwa [hkeep] at this
  have hug : (w.modifyObject r fun o => { o with count := o.count - 1 }).greenlet r = g := by
    refine greenlet_of_some (greenlet?_eq_some_iff.mpr ⟨0, ?_⟩)
    rw [object?_modifyObject, if_pos rfl, ho]
    rfl
  unfold World.releaseHook
  simp only [hug, hkeep]
  by_cases hf : g.fiber = none
  · rw [if_pos (by simp [Greenlet.hasStack, hf])]
    have h₁ : Steady A (.grave r :: hand) m (w.modifyObject r fun o => { o with count := o.count - 1 }) := by
      refine hs.same (hs.staging.setCount (fun _ => rfl) fun n g' ho' => ?_) hc
        (.setCount r fun _ => rfl) rfl rfl
      rw [ho] at ho'
      cases ho'
      exact ⟨nofun, fun _ => hf⟩
    have h₂ : Steady A (.grave r :: hand) m
        ((w.modifyObject r fun o => { o with count := o.count - 1 }).forget g.hub r) := by
      refine h₁.same (h₁.staging.modifyHub (fun _ => ⟨rfl, rfl, rfl⟩)
        (fun o => { o with nodes := fun q hq => o.nodes q (List.mem_of_mem_erase hq) })
        (fun q n k hq hn hr => ?_) (.inr rfl))
        (Covered.modifyHub_of_eq (fun _ => ⟨rfl, rfl, rfl⟩) h₁.covered)
        (.modifyHub' _ fun _ => ⟨rfl, rfl, rfl⟩) rfl rfl
      refine (List.mem_erase_of_ne ?_).mpr hr
      rintro rfl
      have := h₁.covered.count_of_grave List.mem_cons_self hq
      exact absurd this (Nat.pos_iff_ne_zero.mp hn)
    split
    · exact (h₂.mint (k := .doom r) rfl).pushFree hm rfl fun k => by
        simp [Task.tokens, List.count_cons]
        omega
    · exact (h₁.mint (k := .doom r) rfl).pushFree hm rfl fun k => by
        simp [Task.tokens, List.count_cons]
        omega
  · rw [if_neg (by simpa [Greenlet.hasStack, ← Option.isSome_iff_ne_none] using hf)]
    have hopen : (w.hub g.hub).closed = false := by
      by_contra h
      exact hf (hd.shut (by simpa using h))
    have hlive := hs.staging.lives hs.covered hd.hub hopen
    have hlive' : (w.modifyObject r fun o => { o with count := o.count - 1 }).hubLives g.hub =
        true := hlive
    have hopen' : ((w.modifyObject r fun o => { o with count := o.count - 1 }).hub g.hub).closed =
        false := hopen
    simp only [hlive', hopen', Bool.not_true, Bool.false_eq_true, if_false]
    split
    · exact (hk.debug _).enqueue hgr hf fun s => .inr rfl
    · split
      · rename_i hr
        exact hk.putUp hm hgr hf hopen hr
      · unfold World.defer
        exact ((hk.debug _).enqueue (f := fun s => { s with deferred := s.deferred ++ [r] }) hgr hf
          fun s => .inl rfl).stats g.hub _

theorem revive {name : String} {lives : Nat} (hs : Steady A (.object r :: hand) m w)
    (hm : m.isOpen = true) (hns : ∀ q, .sole q ∉ hand)
    (ho : w.object? r = some ⟨1, .phoenix name (lives + 1)⟩)
    (hc : Covered (.grave r :: hand) (w.modifyObject r fun o => { o with count := o.count - 1 })) :
    Steady A hand m ((w.modifyObject r fun o => { o with count := o.count - 1 }).lastDropped r
      (.phoenix name (lives + 1))) := by
  have h₁ := hs.staging.setCount (r := r) (f := fun o => { o with count := o.count - 1 })
    (fun _ => rfl) fun n g hg => by cases ho.symm.trans hg
  have hl₁ : Later w (w.modifyObject r fun o => { o with count := o.count - 1 }) :=
    .setCount r fun _ => rfl
  have ho₁ : (w.modifyObject r fun o => { o with count := o.count - 1 }).object? r =
      some ⟨0, .phoenix name (lives + 1)⟩ := by
    rw [object?_modifyObject, if_pos rfl, ho]
    rfl
  have he : (w.modifyObject r fun o => { o with count := o.count - 1 }).thread = w.thread := rfl
  have ha : (w.modifyObject r fun o => { o with count := o.count - 1 }).active = w.active := rfl
  unfold lastDropped
  simp only
  generalize w.modifyObject r (fun o => { o with count := o.count - 1 }) = u at *
  have hl₂ : Later u (u.modifyObject r fun _ => ⟨1, .phoenix name lives⟩) := by
    refine .modifyObject r fun o hou => ?_
    rw [ho₁] at hou
    cases hou
    exact ⟨fun g hg => Value.noConfusion hg, fun _ => rfl⟩
  have h₂ := h₁.heap hl₂ fun n g hg => by cases ho₁.symm.trans hg
  have hc₂ : Covered (.object r :: hand) (u.modifyObject r fun _ => ⟨1, .phoenix name lives⟩) := by
    have := hc.revive (f := fun _ => ⟨1, .phoenix name lives⟩) (fun _ => rfl) fun o hou => by
      rw [ho₁] at hou
      cases hou
      rfl
    exact this.trade fun k => by
      simp only [List.count_cons]
      omega
  have s₂ := hs.same h₂ hc₂ (hl₁.trans hl₂) ha (congrArg Thread.stack he)
  generalize u.modifyObject r (fun _ => ⟨1, .phoenix name lives⟩) = v at s₂
  have hq := Quiet.event (w := v) "revive" [.text name, .nat lives]
  have s₃ := s₂.same (s₂.staging.quiet hq) (s₂.covered.quiet hq) (.of_quiet hq) hq.active
    (hq.thread s₂.seated).1
  generalize v.event "revive" [.text name, .nat lives] = v' at s₃
  have hb : Effect .full (Obj.tokens (some r) ++ hand) v' _ _ :=
    .bindObject (rfl : v'.bindObject name (some r) = (_, _))
  have hcov := hb.covered s₃.seated (by simpa using hns) s₃.covered
  have s₄ : Steady A (Task.tokensOf (v'.bindObject name (some r)).1 ++ hand) m
      (v'.bindObject name (some r)).2 :=
    s₃.same (s₃.staging.congr (.of_threads rfl rfl rfl) rfl rfl rfl) hcov
    (.of_eq rfl rfl rfl) rfl rfl
  refine s₄.pushFree hm (Task.all_isFree_of_isPlain ?_) fun k => ?_
  · exact Effect.all_isPlain_bindObject (rfl : v'.bindObject name (some r) = (_, _))
  · exact Nat.le_of_eq List.count_append.symm

theorem drop (hs : Steady A (.object r :: hand) m w) (hm : m.isOpen = true)
    (hns : ∀ q, .sole q ∉ hand) : Steady A hand m (w.drop r) := by
  obtain ⟨⟨n, v⟩, ho, hp⟩ := hs.covered.object?_of_mem List.mem_cons_self
  have h₀ : w.demand (.sole r) + hand.count (.sole r) = 0 := by
    have := hs.covered.no_sole (.inr List.mem_cons_self) (r := r) (by simpa using hns r)
    simpa using this
  have hc := hs.covered.release ho fun _ => h₀
  unfold World.drop
  rw [ho]
  simp only
  split
  · rename_i hn
    rw [if_pos hn] at hc
    obtain rfl : n = 1 := Nat.le_antisymm hn hp
    have hdestroy (hv : ∀ g, v = .greenlet g → g.isMain = true) :
        Steady A hand m ((w.modifyObject r fun o => { o with count := o.count - 1 }).push
          [.destroy r]) := by
      have h₁ : Steady A (.grave r :: hand) m
          (w.modifyObject r fun o => { o with count := o.count - 1 }) := by
        refine hs.same (hs.staging.setCount (fun _ => rfl) fun n g ho' => ?_) hc
          (.setCount r fun _ => rfl) rfl rfl
        rw [ho] at ho'
        cases ho'
        refine ⟨(by simp), fun _ => ?_⟩
        by_contra hf
        have := ((hs.staging.greenlets r 1 g ho).spent hf).2
        rw [hv g rfl] at this
        cases this
      exact (h₁.mint (k := .doom r) rfl).pushFree hm rfl fun k => by
        simp [Task.tokens, List.count_cons]
        omega
    cases v with
    | greenlet g =>
      simp only [lastDropped]
      split
      · rename_i hmain
        exact hdestroy fun g' hg' => by cases hg'; exact hmain
      · exact hs.releaseHook hm ho (hns r)
    | phoenix name lives =>
      cases lives with
      | zero => exact hdestroy (by simp)
      | succ lives =>
        have := hs.revive hm hns ho hc
        exact this
    | _ =>
      simp only [lastDropped]
      exact hdestroy (by simp)
  · rename_i hn
    rw [if_neg hn] at hc
    refine hs.same (hs.staging.setCount (fun _ => rfl) fun n g ho' => ?_) hc
      (.setCount r fun _ => rfl) rfl rfl
    rw [ho] at ho'
    cases ho'
    simp only at hn ⊢
    exact ⟨fun _ => hp, fun h => absurd h (by omega)⟩

end Steady

end World

end Switchyard
