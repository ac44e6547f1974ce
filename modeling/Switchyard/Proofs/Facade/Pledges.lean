import Switchyard.Proofs.Facade.Current
import Switchyard.Proofs.Facade.Lasting
import Switchyard.Proofs.Facade.Ledger

/-!
# Deferred releases are made up for

A greenlet that waits in the list of its own hub was dropped while a fiber ran or a stack was
unwound. The tasks that wait for the end of that are followed by a drain, so by the time the
original stack runs ordinary code again, the list is empty.
-/

namespace Switchyard

open World

namespace Task

/-- The task drains the hub, or leads to one that does. -/
def pledges (h : HubId) : Task → Bool
  | drain k | driveBack k .. | driveFinished k .. | driveSuspended k .. => k == h
  | _ => false

theorem isLasting_of_pledges {h : HubId} {t : Task} (ht : t.pledges h = true) :
    t.isLasting = true := by
  cases t <;> first | rfl | cases ht

end Task

namespace World

variable {A : Prop} {w₀ w : World} {h : HubId} {r q : Ref} {c : Context} {tr : List World}

/-- Some task on the stack of its thread will drain the hub `h`. -/
def IsPledged (w : World) (h : HubId) : Prop :=
  ∃ t, .task t ∈ w.stackAt ((w.hub h).thread - 1) ∧ t.pledges h = true

/-- As long as greenlets wait in the list of an open hub, a drain is to come. -/
def Pledged (w : World) (h : HubId) : Prop :=
  (w.hub h).closed = false → (w.hub h).deferred ≠ [] → w.IsPledged h

private theorem Sound.exists_pledge (hs : Sound False w) (hh : h < w.hubs.size)
    {s : List (Item Task)} {m : Mode} {e : Edge} (hm : Mode.of s = some m)
    (hfile : Item.Filed w ((w.hub h).thread - 1) s) (hfine : (w.scene h m e).Fine False h)
    (ho : w.Owned h ((w.hub h).thread - 1))
    (hb : (w.hub h).runningFiber = true ∨ (w.hub h).releasing = true) :
    ∃ t, .task t ∈ s ∧ t.pledges h = true := by
  have hunique {k : HubId} (hk : w.Owned k ((w.hub h).thread - 1)) : k = h := by
    obtain ⟨_, -, hst⟩ := hs.staging
    exact hst.unique k h hk.1 hh (hk.2.trans ho.2.symm)
  rcases hb with hb | hb
  · obtain ⟨k, r, f, hmem⟩ := Mode.exists_driveBack hm (hfine.running.symm.trans hb)
    obtain ⟨below, hf, -⟩ := hfile.mem hmem
    exact ⟨_, hmem, beq_iff_eq.mpr (hunique hf.1)⟩
  · obtain ⟨k, hk, hmem⟩ := Mode.exists_drain hm ((hfine.released hb).resolve_left id) hfile
    exact ⟨_, hmem, beq_iff_eq.mpr (hunique hk)⟩

theorem Sound.isPledged (hs : Sound False w) (hh : h < w.hubs.size) (hc : (w.hub h).closed = false)
    (hb : (w.hub h).runningFiber = true ∨ (w.hub h).releasing = true) : w.IsPledged h := by
  obtain ⟨ho, m, hm, hfine⟩ := hs.scene_of_hub hh hc
  exact hs.exists_pledge hh hm (hs.filed_stackAt _) hfine ho hb

theorem deferred_drop (hl : w.Lingers r) (hm : (w.greenlet r).isMain = false)
    (ht : (w.greenlet r).thread = (w.hub (w.greenlet r).hub).thread) :
    ((w.drop r).hub (w.greenlet r).hub).deferred = (w.hub (w.greenlet r).hub).deferred ∨
      (w.hub (w.greenlet r).hub).runningFiber = true ∨
        (w.hub (w.greenlet r).hub).releasing = true := by
  have hsame (v : World) (u : Hub → Hub) (hv : v.hubs = w.hubs)
      (hu : ∀ s, (u s).deferred = s.deferred) :
      ((v.modifyHub (w.greenlet r).hub u).hub (w.greenlet r).hub).deferred =
        (w.hub (w.greenlet r).hub).deferred := by
    have he : v.hub (w.greenlet r).hub = w.hub (w.greenlet r).hub := by
      rw [World.hub, hv, World.hub]
    rcases hub_modifyHub_cases (w := v) (h := (w.greenlet r).hub) (w.greenlet r).hub u with
      h | ⟨-, h⟩
    · rw [h, he]
    · rw [h, hu, he]
  by_cases hn : w.count r ≤ 1
  · rw [drop_of_lingers hl hm hn]
    dsimp only
    split
    · exact .inl (hsame _ _ rfl fun _ => rfl)
    · rename_i hth
      split
      · left
        change ((World.holdHub _ _).hub _).deferred = _
        exact hsame _ _ rfl fun _ => rfl
      · rename_i hcan
        have hth' : (w.hub (w.greenlet r).hub).thread = w.active := by
          rw [← ht]
          exact Decidable.not_not.mp hth
        simp only [canRelease, hth', beq_self_eq_true, hl.2.2, Bool.not_false, Bool.and_true,
          Bool.true_and, Bool.and_eq_true, Bool.not_eq_true', not_and_or, Bool.not_eq_false] at hcan
        exact .inr hcan
  · refine .inl ?_
    unfold World.drop
    cases ho : w.object? r with
    | none => rfl
    | some o =>
      rw [count_of_some ho] at hn
      dsimp only
      rw [if_neg hn]
      rfl

theorem deferred_drain (hh : h < w.hubs.size) (ht : (w.hub h).thread = w.active) :
    (w.hub h).runningFiber = true ∨ (w.hub h).releasing = true ∨
      ((w.drain h).hub h).deferred = [] := by
  by_cases hr : (w.hub h).runningFiber = true
  · exact .inl hr
  by_cases hrel : (w.hub h).releasing = true
  · exact .inr (.inl hrel)
  refine .inr (.inr ?_)
  have hhub (u : Hub → Hub) (v : Stats → Stats) :
      ((w.modifyHub h u).modifyStats h v).hub h =
        { u (w.hub h) with stats := v (u (w.hub h)).stats } := by
    rw [modifyStats, hub_modifyHub _ _ _ (by rwa [size_modifyHub]), if_pos rfl,
      hub_modifyHub _ _ _ hh, if_pos rfl]
  have hpush (ts : List Task) (v : World) : (v.push ts).hub h = v.hub h := rfl
  unfold World.drain
  dsimp only
  rw [if_neg (by simp [ht, hr, hrel])]
  split
  · rw [hhub]
  · rw [hpush, hhub]

private theorem mem_push (hw : w.Seated) {ts : List Task} {t : Task} (ht : t ∈ ts) :
    .task t ∈ (w.push ts).stackAt (w.active - 1) := by
  change _ ∈ (w.push ts).stackAt ((w.push ts).active - 1)
  rw [← stack_eq_stackAt, stack_push hw]
  exact List.mem_append_left _ (List.mem_map.mpr ⟨t, ht, rfl⟩)

private theorem seated_nextLive {v : World} (hw : w.Seated) (hn : w.nextLive h r = (q, v)) :
    v.Seated ∧ v.active = w.active := by
  unfold World.nextLive at hn
  dsimp only at hn
  split at hn <;> exact (Prod.mk.inj hn).2 ▸ ⟨hw, rfl⟩

private theorem pledge_of_top (hw : w.Seated) {t : Task} (ht : t.pledges h = true)
    (hd : t ≠ .drain h) :
    ∃ u, .task u ∈ (w.runTask t).stackAt (w.active - 1) ∧ u.pledges h = true := by
  cases t with
  | drain k =>
    obtain rfl := beq_iff_eq.mp ht
    exact absurd rfl hd
  | driveBack k r f =>
    change ∃ u, .task u ∈ (w.driveBack k r f).stackAt (w.active - 1) ∧ _
    unfold World.driveBack
    dsimp only
    split
    · exact ⟨.driveFinished k r (w.hub k).outgoing, mem_push hw (by simp), ht⟩
    · exact ⟨.driveSuspended k r (w.hub k).outgoing, mem_push hw (by simp), ht⟩
  | driveFinished k r out =>
    change ∃ u, .task u ∈ (w.driveFinished k r out).stackAt (w.active - 1) ∧ _
    unfold World.driveFinished
    dsimp only
    have hw' : (w.trace ("greenlet " ++ (w.greenlet r).id.text ++ " finished")).Seated ∧
      (w.trace ("greenlet " ++ (w.greenlet r).id.text ++ " finished")).active = w.active :=
      ⟨hw, rfl⟩
    generalize w.trace ("greenlet " ++ (w.greenlet r).id.text ++ " finished") = v at hw' ⊢
    cases hn : v.nextLive k r with
    | mk next v' =>
      obtain ⟨hv, ha⟩ := seated_nextLive hw'.1 hn
      rw [← hw'.2, ← ha]
      dsimp only
      split <;> exact ⟨.drain k, mem_push hv (by simp), ht⟩
  | driveSuspended k r out =>
    change ∃ u, .task u ∈ (w.driveSuspended k r out).stackAt (w.active - 1) ∧ _
    unfold World.driveSuspended
    cases hn : w.nextLive k r with
    | mk next v =>
      obtain ⟨hv, ha⟩ := seated_nextLive hw hn
      rw [← ha]
      split
      · rw [ha]
        exact ⟨.drain k, mem_push hw (by simp), ht⟩
      · exact ⟨.drain k, mem_push hv (by simp), ht⟩
      · exact ⟨.drain k, mem_push hv (by simp), ht⟩
  | _ => cases ht

private theorem Sound.deferred_absent (hs : Sound A w) (hf : w.OnFacade) (hh : w.hubs.size ≤ h) :
    (w.next.hub h).deferred = [] := by
  have hub : (w.hub h).deferred = [] ∧ (w.hub h).closed = true := by
    simp [World.hub, Array.getElem?_eq_none hh]
  rcases (hf.shifts hs.seated).queues h with ⟨t, below, hstk, hreq⟩ | hq
  · exfalso
    cases t with
    | drop r =>
      obtain ⟨hl, rfl⟩ := hreq
      exact absurd (hl.2.2.symm.trans hub.2) (by simp)
    | drain k =>
      obtain rfl : h = k := hreq
      exact Nat.not_lt.mpr hh (hs.filed_top hstk).1
    | teardownQueues k n =>
      obtain rfl : h = k := hreq
      exact Nat.not_lt.mpr hh (hs.filed_top hstk).1.1.1
    | dropHubFields k =>
      obtain rfl : h = k := hreq
      exact Nat.not_lt.mpr hh (hs.filed_top hstk).1.1
    | _ => cases hreq
  · exact hq.deferred.trans hub.1

/-- What begins to wait has a drain to come. -/
private theorem Sound.isPledged_of_deferred (hs : Sound False w) (hf : w.OnFacade)
    (hp : w.Pledged h) (hh : h < w.hubs.size) (hc : (w.hub h).closed = false)
    (hd : (w.next.hub h).deferred ≠ []) : w.IsPledged h := by
  by_cases hd₀ : (w.hub h).deferred = []
  · rcases (hf.shifts hs.seated).queues h with ⟨t, below, hstk, hreq⟩ | hq
    · cases t with
      | drop r =>
        obtain ⟨hl, rfl⟩ := hreq
        obtain ⟨_, -, hst⟩ := hs.staging
        have hg : w.greenlet? r = some (w.greenlet r) := by
          cases hg : w.greenlet? r with
          | none =>
            have := hl.1
            rw [greenlet_of_none hg] at this
            cases this
          | some g => rw [greenlet_of_some hg]
        obtain ⟨n, -, hdec⟩ := hst.decent hg
        have hm : (w.greenlet r).isMain = false :=
          (hdec.spent (Option.isSome_iff_ne_none.mp hl.1)).2
        refine hs.isPledged hh hc ?_
        refine (deferred_drop (w := w.setStack below) hl hm hdec.thread).resolve_left
          fun he => hd ?_
        have hnext : w.next = (w.setStack below).drop r := by
          rw [World.next, hstk]
          rfl
        rw [hnext]
        exact he.trans hd₀
      | drain k =>
        obtain rfl : h = k := hreq
        have ho : w.Owned h (w.active - 1) := hs.filed_top hstk
        refine ⟨.drain h, ?_, beq_self_eq_true h⟩
        rw [ho.2, Nat.add_sub_cancel, ← stack_eq_stackAt, hstk]
        exact List.mem_cons_self
      | teardownQueues k n =>
        obtain rfl : h = k := hreq
        have hsh : w.Shut h (w.active - 1) := (hs.filed_top hstk).1
        exact absurd (hsh.2.symm.trans hc) (by simp)
      | dropHubFields k =>
        obtain rfl : h = k := hreq
        have hsh : w.Shut h (w.active - 1) := hs.filed_top hstk
        exact absurd (hsh.2.symm.trans hc) (by simp)
      | _ => cases hreq
    · exact absurd (hq.deferred.trans hd₀) hd
  · exact hp hc hd₀

private theorem Sound.isPledged_below {below : List (Item Task)} (hs : Sound False w)
    (hstk : w.thread.stack = .task (.drain h) :: below) (hh : h < w.hubs.size)
    (hc : (w.hub h).closed = false)
    (hb : (w.hub h).runningFiber = true ∨ (w.hub h).releasing = true) :
    ∃ t, .task t ∈ ((w.setStack below).runTask (.drain h)).stackAt (w.active - 1) ∧
      t.pledges h = true := by
  have hv : (w.setStack below).runTask (.drain h) = w.setStack below := by
    change (w.setStack below).drain h = _
    unfold World.drain
    dsimp only
    have hk : (w.setStack below).hub h = w.hub h := rfl
    exact if_pos (by rcases hb with hb | hb <;> simp [hk, hb])
  rw [hv, stackAt_setStack hs.seated, if_pos rfl]
  obtain ⟨ho, m, hm, hfine⟩ := hs.scene_of_hub hh hc
  have hth : w.active - 1 = (w.hub h).thread - 1 := by
    rw [(hs.filed_top hstk).2, Nat.add_sub_cancel]
  rw [← hth, ← stack_eq_stackAt, hstk] at hm
  obtain ⟨m₀, h₀, hi⟩ := Mode.of_cons hm
  obtain ⟨rfl, -⟩ := Mode.of_step_code hi rfl
  have hfile := hs.filed_stackAt (w.active - 1)
  rw [← stack_eq_stackAt, hstk, hth] at hfile
  exact hs.exists_pledge hh h₀ hfile.2 hfine ho hb

/-- A step keeps what pledges a drain, or drains. -/
theorem Sound.pledged (hs : Sound False w) (hc : w.Stands c) (hf : w.OnFacade)
    (hb : ¬ w.BreaksOff) (hp : w.Pledged h) : w.next.Pledged h := by
  intro hopen hd
  have hh : h < w.hubs.size := by
    by_contra hn
    exact hd (hs.deferred_absent hf (Nat.le_of_not_lt hn))
  obtain ⟨-, hth, -, hcl⟩ := (hs.alters hf).toLater.hub hh
  have hc₀ : (w.hub h).closed = false := by
    by_contra hn
    rw [hcl (by simpa using hn)] at hopen
    cases hopen
  obtain ⟨ho, m, hm, -⟩ := hs.scene_of_hub hh hc₀
  obtain ⟨t, hmem, ht⟩ := hs.isPledged_of_deferred hf hp hh hc₀ hd
  have hunique {k : HubId} (hk : w.Owned k ((w.hub h).thread - 1)) : k = h := by
    obtain ⟨_, -, hst⟩ := hs.staging
    exact hst.unique k h hk.1 hh (hk.2.trans ho.2.symm)
  unfold IsPledged
  rw [hth]
  by_cases hsus : (∃ k f below, w.thread.stack = .task (.suspend k f) :: below) ∧
      w.active - 1 = (w.hub h).thread - 1
  · -- the driver of the fiber is on top now
    obtain ⟨⟨k, f, below, hstk⟩, hi⟩ := hsus
    obtain ⟨r, above, rest, rfl, hback, hnext⟩ := hs.next_suspend hstk
    obtain ⟨k', r', f', hmem'⟩ := Mode.exists_driveBack hback rfl
    have hfile := hs.filed_stackAt ((w.hub h).thread - 1)
    rw [← hi, ← stack_eq_stackAt, hstk] at hfile
    obtain ⟨_, hfk, -⟩ := hfile.mem (t := .driveBack k' r' f') (by simp [hmem'])
    refine ⟨.driveBack k' r' f', ?_, beq_iff_eq.mpr (hunique (hi ▸ hfk.1))⟩
    rw [← hi, hnext]
    exact hmem'
  · have hsus' : ∀ u below, w.thread.stack = .task u :: below → u.isSuspend = true →
        w.active - 1 ≠ (w.hub h).thread - 1 := by
      intro u below hstk hu hi
      cases u with
      | suspend k f => exact hsus ⟨⟨k, f, below, hstk⟩, hi⟩
      | _ => cases hu
    rcases hs.lasts hc hf hb (Task.isLasting_of_pledges ht) hmem hsus' with
      ⟨hi, below, hstk⟩ | hnext
    · rw [hi]
      have hw' : (w.setStack below).Seated := (seated_modifyThread _).mpr hs.seated
      have hnext : w.next = (w.setStack below).runTask t := by
        rw [World.next, hstk]
      by_cases hdr : t = .drain h
      · subst hdr
        rw [hnext] at hd ⊢
        have hth' : (w.hub h).thread = w.active :=
          (hs.filed_top hstk).2.trans (Nat.sub_add_cancel hs.seated.1)
        have hbusy : (w.hub h).runningFiber = true ∨ (w.hub h).releasing = true := by
          have := deferred_drain (w := w.setStack below) hh hth'
          exact this.imp_right fun h => h.resolve_right hd
        exact hs.isPledged_below hstk hh hc₀ hbusy
      · rw [hnext]
        exact pledge_of_top hw' ht hdr
    · exact ⟨t, hnext, ht⟩

/-- In a run on the facade a drain is to come as long as greenlets wait in the list of a hub, unless
a panic has broken off what the hub relied on. -/
theorem Run.pledged (hs : w₀.Starts) (hr : Run w₀ tr w) (hf : ∀ v ∈ tr, v.OnFacade)
    (hb : ∀ v ∈ tr, ¬ v.BreaksOff) : w.Pledged h := by
  induction hr with
  | start =>
    obtain ⟨-, -, hhubs, -⟩ := hs.bare
    intro hc
    simp [World.hub, hhubs] at hc
  | @step tr v hr hv ih =>
    have hf' : ∀ u ∈ tr, u.OnFacade := fun u hu => hf u (List.mem_cons_of_mem _ hu)
    have hb' : ∀ u ∈ tr, ¬ u.BreaksOff := fun u hu => hb u (List.mem_cons_of_mem _ hu)
    obtain ⟨c, hc⟩ := hr.stands hs
    have hsound : Sound False v := (hr.sound hs hf').mono fun hex =>
      Exists.elim hex fun u h => hb' u h.1 h.2
    exact hsound.pledged hc (hf v List.mem_cons_self) (hb v List.mem_cons_self) (ih hf' hb')
  | yield _ _ _ ih => exact ih hf hb

end World

/-- The item belongs to the engine: to a fiber, the driver, a release, a drain or the end of a
hub. -/
def Item.isEngine : Item Task → Bool
  | .base .. => true
  | .task t =>
    match t with
    | .drain _ => true
    | .exitThread => false
    | t => t.role ≠ .code && t.role ≠ .fail

theorem Mode.idle_of_engineless {s : List (Item Task)} {m : Mode} (h : of s = some m)
    (hs : ∀ x ∈ s, x.isEngine = false) : m = .idle := by
  induction s generalizing m with
  | nil => exact (Option.some.inj h).symm
  | cons i s ih =>
    obtain ⟨m₀, h₀, hi⟩ := of_cons h
    obtain rfl := ih h₀ fun x hx => hs x (List.mem_cons_of_mem _ hx)
    have he := hs i List.mem_cons_self
    cases i with
    | base => cases he
    | task t =>
      by_cases hr : t.role = .code ∨ t.role = .fail
      · rw [step_code rfl hr] at hi
        exact (Option.some.inj hi).symm
      · obtain ⟨h₁, h₂⟩ := not_or.mp hr
        have hex : t = .exitThread := by
          unfold Item.isEngine at he
          dsimp only at he
          split at he
          · cases he
          · rfl
          · simp [h₁, h₂] at he
        subst hex
        exact (Option.some.inj hi).symm

/-- The hub has nothing to do, and its main greenlet is the current one. -/
structure Hub.AtRest (s : Hub) : Prop where
  runningFiber : s.runningFiber = false
  releasing : s.releasing = false
  driving : s.driving = false
  outgoing : s.outgoing = none
  current : s.current = s.main
  deferred : s.deferred = []

namespace World

variable {w₀ w : World} {h : HubId} {tr : List World}

/-- In a run on the facade an open hub is at rest wherever its thread runs ordinary code on its
original stack, and no greenlet waits in its list, unless a panic has broken off what the hub relied
on. -/
theorem Run.atRest (hs : w₀.Starts) (hr : Run w₀ tr w) (hf : ∀ v ∈ tr, v.OnFacade)
    (hb : ∀ v ∈ tr, ¬ v.BreaksOff) (hh : h < w.hubs.size) (hc : (w.hub h).closed = false)
    (he : ∀ x ∈ w.stackAt ((w.hub h).thread - 1), x.isEngine = false) : (w.hub h).AtRest := by
  have hsound : Sound False w := (hr.sound hs hf).mono fun ⟨v, hv, hbr⟩ => hb v hv hbr
  obtain ⟨-, m, hm, hfine⟩ := hsound.scene_of_hub hh hc
  obtain rfl := Mode.idle_of_engineless hm he
  refine ⟨hfine.running, ?_, hfine.driving, hfine.outgoing rfl, (hfine.home rfl).resolve_left id,
    ?_⟩
  · by_contra hrel
    replace hrel : (w.hub h).releasing = true := by simpa using hrel
    exact absurd rfl ((hfine.released hrel).resolve_left id)
  · by_contra hd
    obtain ⟨t, hmem, ht⟩ := hr.pledged hs hf hb hc hd
    have hen := he _ hmem
    cases t with
    | drain k => cases hen
    | driveBack | driveFinished | driveSuspended => cases hen
    | _ => cases ht

/-- A greenlet drops the last reference to another that is suspended. -/
def deferring : World :=
  Script.start .empty
    [("p", [.switch "@main" (.built [] []) none none]), ("q", [.drop "p"])]
    [.create "p" "p" [] [] none none, .create "q" "q" [] [] none none,
      .switch "p" (.built [] []) none none, .switch "q" (.built [] []) none none,
      .note (.nat 1)] 500

/-- A greenlet has waited in the list for the fiber to go, and is gone when the thread is back on
its original stack. -/
theorem Run.atRest_deferring : ∃ tr, Run deferring tr (deferring.run 100) ∧
    (∀ v ∈ tr, v.OnFacade ∧ ¬ v.BreaksOff) ∧
    ((deferring.run 56).hub 0).deferred = [1] ∧
    (∀ x ∈ (deferring.run 100).stackAt (((deferring.run 100).hub 0).thread - 1),
      x.isEngine = false) ∧
    ((deferring.run 100).hub 0).AtRest := by
  obtain ⟨tr, h, hf⟩ := (@Run.start deferring).run_all
    (p := fun v => v.OnFacade ∧ ¬ v.BreaksOff) (n := 100) (by decide +kernel)
  rw [List.append_nil] at h
  have he : ∀ x ∈ (deferring.run 100).stackAt (((deferring.run 100).hub 0).thread - 1),
      x.isEngine = false := by decide +kernel
  exact ⟨tr, h, hf, by decide +kernel, he,
    Run.atRest (.script ..) h (fun v hv => (hf v hv).1) (fun v hv => (hf v hv).2) (h := 0)
      (by decide +kernel) (by decide +kernel) he⟩

end World

end Switchyard
