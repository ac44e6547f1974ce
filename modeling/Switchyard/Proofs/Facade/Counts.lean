import Switchyard.Proofs.Facade.Abroad
import Switchyard.Proofs.Pending.Run

/-!
# References are counted

In a run on the facade an object counts the slots that refer to it. The last reference that goes
brings the claim to destroy the value, which is met once. An object that keeps itself has the
reference that it took.
-/

namespace Switchyard

open World

namespace Context

variable {c : Context} {s : List (Item Task)}

theorem exists_task (h : of s = some c) (h₀ : c ≠ .floor) (h₁ : c ≠ .base) :
    ∃ t below, s = .task t :: below := by
  cases s with
  | nil => exact absurd (Option.some.inj h).symm h₀
  | cons i s =>
    obtain ⟨c', -, hi⟩ := of_cons h
    cases i with
    | task t => exact ⟨t, s, rfl⟩
    | base => exact absurd (Option.some.inj hi).symm h₁

theorem isSome_frameOf (h : of s = some .frame) : (frameOf s).isSome = true := by
  induction s with
  | nil => cases h
  | cons i s ih =>
    obtain ⟨c', hc, hi⟩ := of_cons h
    cases i with
    | base => cases hi
    | task t =>
      by_cases hf : ∃ f, t = .frame f
      · obtain ⟨f, rfl⟩ := hf
        rfl
      · rcases frame_below hi with rfl | hf'
        · rw [frameOf_cons fun f he => hf ⟨f, Item.task.inj he⟩]
          exact ih hc
        · exact absurd hf' hf

end Context

/-- What a thread may do that loses nothing and drops only what its next task is about. -/
def Licence.counting (w : World) : Licence where
  leaks := False
  sheds _ := True
  clears := True
  links _ := False
  drops r := ∃ below, w.thread.stack = .task (.drop r) :: below
  hubs _ := True
  greenlets _ := True
  fibers _ := True

namespace World

variable {A : Prop} {w w₀ w' : World} {q r : Ref} {f : FiberId} {t : Task} {c : Context}
  {below : List (Item Task)} {hand spent : List Token} {m m₁ : Mode} {e : Edge} {tr : List World}

theorem Staging.mounted {x : Spot} (hs : Staging A (some (⟨.on r f x, .none⟩, e)) w)
    (hc : Covered hand w) (hm : Mode.of w.thread.stack = some m₁)
    (hf : Item.Filed w (w.active - 1) w.thread.stack) (h₁ : m₁.ground.turn? = some (r, f)) :
    f < w.fibers.size ∧ (w.fiberD f).tokens = [] := by
  obtain ⟨h, g, -, -, -, hl, -, hfib, hsu⟩ := hs.exists_seat hc hm hf h₁ rfl
  obtain ⟨n, -, hd⟩ := hs.decent (greenlet?_of_living hl)
  obtain ⟨-, hp, -⟩ := Ground.places_on.mp (hsu.fiber _ hfib).2
  have hp : (w.fiberD f).phase = .active := hp
  exact ⟨(hd.saved _ hfib).1, by rw [Fiber.tokens, hp]; rfl⟩

theorem Sound.mounted (hs : Sound A w) (hstk : w.thread.stack = .task t :: below) :
    (w.setStack below).control.Mounted := by
  intro above f rest hsplit
  obtain ⟨m₀, m, hi, hp, -⟩ := hs.poise hstk
  obtain ⟨r, x, rfl⟩ := Mode.of_split hp.mode hsplit
  obtain ⟨y, rfl⟩ := Mode.of_step_on hi
  exact hp.staging.mounted hp.covered hp.mode hp.filed rfl

theorem Sound.landed (hs : Sound A w) (hstk : w.thread.stack = .base f false :: below) :
    (w.fiberD f).tokens = [] := by
  obtain ⟨⟨m, hm, hst⟩, hc, hf⟩ := hs
  obtain ⟨r, x, rfl⟩ := Mode.of_split (hstk ▸ hm) rfl
  exact (hst.mounted hc hm hf rfl).2

private theorem Stands.grants (hc : w.Stands c) (hstk : w.thread.stack = .task t :: below)
    (hn : ∀ q, ¬ w.Relinks q) : (Licence.counting w).Grants (w.setStack below) t where
  frames hu := by
    have needs {c₁ d e : Context} (h : Context.guard (c₁ = .frame) d = some e) : c₁ = .frame := by
      simpa using (Context.guard_eq_some_iff.mp h).1
    obtain ⟨c₁, hb, hi⟩ := Context.of_cons (hstk ▸ hc.context)
    refine .inr ?_
    unfold usesFrame at hu
    unfold HasFrame
    rw [stack_setStack hc.seated] at hu ⊢
    split at hu
    · exact Context.isSome_frameOf (needs hi ▸ hb)
    · exact Context.isSome_frameOf (needs hi ▸ hb)
    · obtain ⟨c₂, hr, hi'⟩ := Context.of_cons hb
      rw [frameOf_cons (by simp)]
      exact Context.isSome_frameOf (needs hi' ▸ hr)
    · obtain ⟨c₂, hr, hi'⟩ := Context.of_cons hb
      rw [frameOf_cons (by simp)]
      exact Context.isSome_frameOf (needs hi' ▸ hr)
    · cases hu
  clears _ := trivial
  links q hq := hn q ⟨t, below, hstk, hq⟩

private theorem Stands.heard (hc : w.Stands c) (hstk : w.thread.stack = .task t :: below)
    (ht : t.isMessage = true) : ∃ u rest, below = .task u :: rest := by
  obtain ⟨c₁, hb, hi⟩ := Context.of_cons (hstk ▸ hc.context)
  refine Context.exists_task hb ?_ ?_
  all_goals
    rintro rfl
    cases t with
    | answer | leave | result | hand => cases hi
    | _ => cases ht

theorem Sound.admits_counting (hs : Sound A w) (hc : w.Stands c) (hf : w.OnFacade)
    (hn : ∀ q, ¬ w.Relinks q) (hstk : w.thread.stack = .task t :: below) :
    (Licence.counting w).Admits (w.setStack below) t where
  toGrants := hc.grants hstk hn
  hubs _ _ := trivial
  greenlets _ _ := trivial
  fibers _ _ := trivial
  parts r ht := by
    subst ht
    refine ⟨⟨below, hstk⟩, .inr ?_, fun _ _ _ => ⟨trivial, trivial, fun _ _ => trivial⟩⟩
    obtain ⟨-, -, -, -, -, hcov, -⟩ := hs.pop hstk
    have hd := hcov (.object r) rfl
    rw [supply_object, Task.tokens, List.count_singleton_self] at hd
    exact object?_of_count (by omega)
  heard ht := by
    rw [stack_setStack hc.seated]
    exact .inr (hc.heard hstk ht)
  strands _ _ := trivial
  mounted := .inr (hs.mounted hstk)
  inner hi := by
    cases t with
    | steps rest =>
      cases rest with
      | nil => cases hi
      | cons st rest =>
        have hof := hf st rest below hstk
        simp [Task.isInner, hof] at hi
    | _ => cases hi

theorem Sound.advance_counting (hs : Sound A w) (hr : w.Rested) (hc : w.Stands c) (hw : w.Manned)
    (hh : w.isHalted = false) (hf : w.OnFacade) (hn : ∀ q, ¬ w.Relinks q) :
    Advance (.counting w) w :=
  hr.advance hw hh hf.inSlots (fun _ _ hstk => hs.admits_counting hc hf hn hstk)
    fun _ _ _ hstk => ⟨trivial, .inr fun he => hs.landed (he ▸ hstk)⟩

/-- How often steps from the worlds of `tr` have destroyed the value at `r`. -/
def destructions (tr : List World) (r : Ref) : Nat :=
  tr.countP fun v => v.destroyed? = some r

def met (tr : List World) : List Token := (tr.filterMap destroyed?).map .doom

theorem count_met (tr : List World) (r : Ref) : (met tr).count (.doom r) = destructions tr r := by
  rw [met, List.count, List.countP_map, List.countP_filterMap]
  refine List.countP_congr fun v _ => ?_
  cases v.destroyed? <;> simp

theorem met_cons (w : World) (tr : List World) :
    met (w :: tr) = (w.destroyed?.map Token.doom).toList ++ met tr := by
  rw [met, List.filterMap_cons]
  cases w.destroyed? <;> rfl

theorem Advance.gone (hv : Advance (.counting w) w) (h : w.next.Gone r) :
    w.Gone r ∨ ∃ below, w.thread.stack = .task (.drop r) :: below := by
  cases hv with
  | yield i _ _ _ hn | leaving _ _ hn =>
    rw [hn] at h
    exact .inl h
  | land _ hs m => exact m.gone hs h
  | @task t below v ht hv hs m m' =>
    refine (m'.gone (hs.handed m) h).imp_left fun hg => ?_
    rcases hv with rfl | ⟨k, -, -, rfl⟩ <;> exact hg

private theorem releaseHook_cases (hw : w.Seated) (ho : ∃ o, w.object? r = some o) :
    (∃ below, (w.releaseHook r).thread.stack = .task (.destroy r) :: below) ∨
      (w.releaseHook r).count r = 1 := by
  obtain ⟨o, ho⟩ := ho
  have kept : (w.modifyObject r fun o => { o with count := 1 }).count r = 1 := by
    rw [count_modifyObject, if_pos rfl, ho]
    rfl
  have going {v : World} (hv : v.Seated) :
      ∃ below, (v.push [.destroy r]).thread.stack = .task (.destroy r) :: below :=
    ⟨_, stack_push hv _⟩
  have abandon {v : World} (hv : v.Seated) : (v.abandonStack r).2.Seated := by
    have m : Motion .full [] v [] (v.abandonStack r).2 := .abandonStack trivial fun _ _ => trivial
    exact m.seated hv
  unfold World.releaseHook
  simp only
  split
  · refine .inl (going ?_)
    split <;> exact hw
  split
  · exact .inl (going (abandon hw))
  split
  · exact .inl (going (abandon hw))
  refine .inr ?_
  split
  · exact kept
  split
  · exact kept
  · exact kept

/-- When the last reference is dropped, the value is destroyed next, or the object has taken one
reference. -/
theorem drop_cases (hw : w.Seated) (h : w.count r = 1) :
    (∃ below, (w.drop r).thread.stack = .task (.destroy r) :: below) ∨ (w.drop r).count r = 1 := by
  obtain ⟨o, ho⟩ := object?_of_count (w := w) (r := r) (by omega)
  rw [count_of_some ho] at h
  have ho' : ∃ o, (w.unref r).object? r = some o := ⟨_, object?_unref ho⟩
  have going : ∃ below, ((w.unref r).push [.destroy r]).thread.stack =
      .task (.destroy r) :: below := ⟨_, stack_push hw _⟩
  unfold World.drop
  rw [ho]
  simp only [h, Nat.le_refl, if_true]
  change (∃ below, ((w.unref r).lastDropped r o.value).thread.stack = _) ∨
    ((w.unref r).lastDropped r o.value).count r = 1
  unfold World.lastDropped
  split
  · split
    · exact .inl going
    · exact releaseHook_cases hw ho'
  · rename_i name lives _
    let v := (w.unref r).modifyObject r fun _ => ⟨1, .phoenix name lives⟩
    have hq : Quiet v (v.event "revive" [.text name, .nat lives]) := .event _ _
    have hc : (v.event "revive" [.text name, .nat lives]).count r = 1 := by
      obtain ⟨o, ho⟩ := ho'
      rw [World.count, hq.object?, ← World.count, count_modifyObject, if_pos rfl, ho]
      rfl
    exact .inr hc
  · exact .inl going

theorem count_drop (h : 1 < w.count r) : (w.drop r).count r = w.count r - 1 := by
  obtain ⟨o, ho⟩ := object?_of_count (w := w) (r := r) (by omega)
  rw [count_of_some ho] at h ⊢
  unfold World.drop
  rw [ho]
  simp only [if_neg (Nat.not_le.mpr h)]
  rw [count_modifyObject, if_pos rfl, ho]
  rfl

theorem next_eq_drop (hstk : w.thread.stack = .task (.drop r) :: below) :
    w.next = (w.setStack below).drop r := by
  unfold World.next
  rw [hstk]
  rfl

/-- A step that drops the last reference has the value destroyed next, or the object kept with one
reference. -/
theorem next_drop (hw : w.Seated) (hstk : w.thread.stack = .task (.drop r) :: below)
    (h : w.count r = 1) : w.next.destroyed? = some r ∨ w.next.count r = 1 := by
  rw [next_eq_drop hstk]
  exact (drop_cases (w := w.setStack below) ((seated_modifyThread _).mpr hw) h).imp_left
    destroyed?_eq_some_iff.mpr

theorem count_of_next_drop (hstk : w.thread.stack = .task (.drop r) :: below)
    (hpos : 0 < w.count r) (h : w.next.count r = 0) : w.count r = 1 := by
  by_contra hne
  have hmore : 1 < (w.setStack below).count r := by
    have : (w.setStack below).count r = w.count r := rfl
    omega
  have hd := count_drop hmore
  rw [← next_eq_drop hstk] at hd
  omega

/-- Some thread destroys the value at `r` when its turn comes. -/
def Dooms (w : World) (r : Ref) : Prop := ∃ i below, w.stackAt i = .task (.destroy r) :: below

theorem dooms_of_destroyed? (h : w.destroyed? = some r) : w.Dooms r := by
  obtain ⟨below, hstk⟩ := destroyed?_eq_some_iff.mp h
  exact ⟨w.active - 1, below, (stack_eq_stackAt w).symm.trans hstk⟩

theorem count_stackAt_le (w : World) (i : Nat) (k : Token) :
    (Item.tokensOf (w.stackAt i)).count k ≤ w.demand k := by
  unfold stackAt
  cases ht : w.threads[i]? with
  | none => exact Nat.zero_le _
  | some t =>
    have hle := le_total (F := fun t : Thread => t.tokens.count k) ht
    have hin : (Item.tokensOf t.stack).count k ≤ t.tokens.count k := by
      simp only [Thread.tokens, List.count_append]
      omega
    have hd : total (fun t : Thread => t.tokens.count k) w.threads ≤ w.demand k := by
      unfold demand
      omega
    exact Nat.le_trans hin (Nat.le_trans hle hd)

theorem Dooms.demand (hd : w.Dooms r) : 0 < w.demand (.doom r) := by
  obtain ⟨i, below, hi⟩ := hd
  refine Nat.lt_of_lt_of_le ?_ (w.count_stackAt_le i (.doom r))
  rw [hi]
  simp [Item.tokensOf, Item.tokens, Task.tokens]

theorem Advance.waits {L : Licence} {i : Nat} {x : Item Task} (hv : Advance L w)
    (hi : i ≠ w.active - 1) (hx : w.stackAt i = x :: below) : w.next.stackAt i = x :: below := by
  obtain ⟨t, ht, hstk⟩ : ∃ t, w.threads[i]? = some t ∧ t.stack = x :: below := by
    unfold stackAt at hx
    cases ht : w.threads[i]? with
    | none => simp [ht] at hx
    | some t => exact ⟨t, rfl, by simpa [ht] using hx⟩
  have key {w' : World} (ha : Aside i w w') : w'.stackAt i = x :: below := by
    obtain ⟨-, t', ht', hs, -⟩ := ha t hi ht
    rw [stackAt, ht', Option.map_some, Option.getD_some, hs, hstk]
  cases hv with
  | yield j _ _ _ hn =>
    rw [hn]
    exact hx
  | land _ _ m => exact key (m.aside i)
  | leaving _ _ hn =>
    rw [hn]
    exact key (.modifyThread _)
  | task _ hv _ m m' =>
    rcases hv with rfl | ⟨h, -, -, rfl⟩
    · exact key ((m.aside i).trans (m'.aside i))
    · have hc : Aside i w (w.closing h) := .of_threads rfl rfl
      exact key (hc.trans ((m.aside i).trans (m'.aside i)))

def KeepsLinks (w : World) : Prop :=
  ∀ name new rest below,
    w.thread.stack ≠ .task (.steps (.setParent name new :: rest)) :: below

instance : DecidablePred KeepsLinks := fun w =>
  let ok : Bool := match w.thread.stack with
    | .task (.steps (.setParent _ _ :: _)) :: _ => false
    | _ => true
  decidable_of_iff (ok = true) <| by
    unfold KeepsLinks ok
    split
    · rename_i hs
      simp [hs]
    · rename_i hn
      exact iff_of_true rfl hn

theorem KeepsLinks.not_relinks (hk : w.KeepsLinks) (q : Ref) : ¬ w.Relinks q := fun h => by
  obtain ⟨name, new, rest, below, hstk, -⟩ := h.named
  exact hk name new rest below hstk

/-- A run on the facade advances by what its next task is about. -/
theorem Run.advance_counting (hs : w₀.Starts) (h : Run w₀ tr w) (hh : w.isHalted = false)
    (hf : ∀ v ∈ tr, v.OnFacade) (hw : w.OnFacade) (hk : w.KeepsLinks) :
    Advance (.counting w) w := by
  obtain ⟨c, hc⟩ := h.stands hs
  obtain ⟨home, hl⟩ := h.locked hs
  have hr : w.Rested := h.rested hs fun v hv => (hf v hv).inSlots
  exact (h.sound hs hf).advance_counting hr hc hl.manned hh hw hk.not_relinks

theorem Run.exact (hs : w₀.Starts) (h : Run w₀ tr w) (hf : ∀ v ∈ tr, v.OnFacade)
    (hk : ∀ v ∈ tr, v.KeepsLinks) : Exact (·.isExact = true) (met tr) [] w := by
  induction h with
  | start => exact hs.exact
  | @step tr v h hw ih =>
    have hf' : ∀ u ∈ tr, u.OnFacade := fun u hu => hf u (List.mem_cons_of_mem _ hu)
    have hv := h.advance_counting hs hw hf' (hf _ List.mem_cons_self) (hk _ List.mem_cons_self)
    rw [met_cons]
    exact (ih hf' fun u hu => hk u (List.mem_cons_of_mem _ hu)).next (h.sound hs hf').seated hv
      (fun k hk hn => Licence.loses_of_isExact hk hn) fun _ _ hn => absurd hn not_false
  | yield h hi hn ih => exact ⟨(ih hf hk).even, (ih hf hk).urns⟩

theorem Run.exact_next (hs : w₀.Starts) (h : Run w₀ tr w) (hf : ∀ v ∈ tr, v.OnFacade)
    (hk : ∀ v ∈ tr, v.KeepsLinks) (hh : w.isHalted = false) (hw : w.OnFacade)
    (hkl : w.KeepsLinks) : Exact (·.isExact = true) (met (w :: tr)) [] w.next :=
  (h.step hh).exact hs (List.forall_mem_cons.mpr ⟨hw, hf⟩) (List.forall_mem_cons.mpr ⟨hkl, hk⟩)

theorem Run.size_le_next (hs : w₀.Starts) (h : Run w₀ tr w) (hh : w.isHalted = false) :
    w.heap.size ≤ w.next.heap.size := by
  obtain ⟨home, hl⟩ := h.locked hs
  exact ((h.kept hs).latches hl.manned hh (h.latched hs).slotted).size

/-- The value of an object without references was destroyed, or some thread is about to do it. -/
theorem Run.gone_cases (hs : w₀.Starts) (h : Run w₀ tr w) (hf : ∀ v ∈ tr, v.OnFacade)
    (hk : ∀ v ∈ tr, v.KeepsLinks) (hg : w.Gone r) : 0 < destructions tr r ∨ w.Dooms r := by
  induction h with
  | start => cases hs <;> exact absurd hg.1 (Nat.not_lt_zero _)
  | @step tr v h hw ih =>
    have hf' : ∀ u ∈ tr, u.OnFacade := fun u hu => hf u (List.mem_cons_of_mem _ hu)
    have hk' : ∀ u ∈ tr, u.KeepsLinks := fun u hu => hk u (List.mem_cons_of_mem _ hu)
    have hv := h.advance_counting hs hw hf' (hf _ List.mem_cons_self) (hk _ List.mem_cons_self)
    have hseat : v.Seated := (h.sound hs hf').seated
    rcases hv.gone hg with hg | ⟨below, hstk⟩
    · rcases ih hf' hk' hg with hpos | ⟨i, below, hi⟩
      · refine .inl ?_
        simp only [destructions, List.countP_cons] at hpos ⊢
        omega
      · by_cases ha : i = v.active - 1
        · have hd : v.destroyed? = some r :=
            destroyed?_eq_some_iff.mpr ⟨below, (stack_eq_stackAt v).trans (ha ▸ hi)⟩
          exact .inl (by simp [destructions, hd])
        · exact .inr ⟨i, below, hv.waits ha hi⟩
    · -- the reference that went was the last one
      have hcount : 0 < v.count r := by
        have he := (h.exact hs hf' hk').even (.object r) rfl rfl
        have hst := v.count_stackAt_le (v.active - 1) (.object r)
        rw [← stack_eq_stackAt, hstk] at hst
        simp only [Item.tokensOf, List.flatMap_cons, Item.tokens, Task.tokens, List.cons_append,
          List.count_cons_self] at hst
        simp only [stock, owed] at he
        omega
      rcases next_drop hseat hstk (count_of_next_drop hstk hcount hg.2) with hd | hc
      · exact .inr (dooms_of_destroyed? hd)
      · rw [hg.2] at hc
        cases hc
  | yield h hi hn ih => exact ih hf hk hg

/-- References are exact after steps from the worlds of `tr`. -/
structure Counted (tr : List World) (w : World) : Prop where
  count (r : Ref) : w.count r = w.referrers r
  /-- While a slot owns the object, its value was not destroyed and is not about to be. -/
  kept (r : Ref) : 0 < w.referrers r → destructions tr r = 0 ∧ ¬ w.Dooms r
  /-- The value of an object that no slot owns was destroyed once, or will be. -/
  destroyed (r : Ref) : r < w.heap.size → w.referrers r = 0 →
    destructions tr r = 1 ∧ ¬ w.Dooms r ∨ destructions tr r = 0 ∧ w.Dooms r
  unborn (r : Ref) : w.heap.size ≤ r → w.referrers r = 0 ∧ destructions tr r = 0 ∧ ¬ w.Dooms r
  /-- The step that takes the last reference is the drop of it. The value is destroyed next. -/
  last (r : Ref) : w.isHalted = false → w.OnFacade → w.KeepsLinks → 0 < w.referrers r →
    w.next.referrers r = 0 → w.referrers r = 1 ∧ w.next.destroyed? = some r ∧
      ∃ below, w.thread.stack = .task (.drop r) :: below
  /-- When the last reference is dropped, the object is kept with one that its hook has taken, or
  its value is destroyed next. -/
  dropped (r : Ref) (below : List (Item Task)) : w.thread.stack = .task (.drop r) :: below →
    w.referrers r = 1 →
      w.next.referrers r = 0 ∧ w.next.destroyed? = some r ∨
      w.next.referrers r = 1 ∧ destructions (w :: tr) r = 0 ∧ ¬ w.next.Dooms r

theorem Exact.count (he : Exact (·.isExact = true) (met tr) [] w) (r : Ref) : w.count r = w.referrers r := by
  have h := he.even (.object r) rfl rfl
  have hm : (met tr).count (.object r) = 0 := by simp [met, List.count_eq_zero]
  rw [hm] at h
  exact h.symm

private theorem Exact.doom (he : Exact (·.isExact = true) (met tr) [] w) (r : Ref) :
    w.owed (.doom r) + destructions tr r = if w.Gone r then 1 else 0 := by
  have h := he.even (.doom r) rfl rfl
  rw [count_met] at h
  simpa [stock] using h

private theorem Exact.kept (he : Exact (·.isExact = true) (met tr) [] w) (h : ¬ w.Gone r) :
    destructions tr r = 0 ∧ ¬ w.Dooms r := by
  have hd := he.doom r
  rw [if_neg h] at hd
  refine ⟨by omega, fun hr => ?_⟩
  have := hr.demand
  unfold owed at hd
  omega

/-- References are counted exactly in a run on the facade that puts no greenlet under another. -/
theorem Run.counted (hs : w₀.Starts) (h : Run w₀ tr w) (hf : ∀ v ∈ tr, v.OnFacade)
    (hk : ∀ v ∈ tr, v.KeepsLinks) : Counted tr w := by
  have he := h.exact hs hf hk
  have hseat : w.Seated := (h.sound hs hf).seated
  constructor
  case count => exact he.count
  case kept =>
    intro r hr
    exact he.kept fun hg => by
      rw [← he.count, hg.2] at hr
      exact Nat.lt_irrefl 0 hr
  case destroyed =>
    intro r hlt hr
    have hg : w.Gone r := ⟨hlt, (he.count r).trans hr⟩
    have hd := he.doom r
    rw [if_pos hg] at hd
    by_cases hdoom : w.Dooms r
    · have := hdoom.demand
      unfold owed at hd
      exact .inr ⟨by omega, hdoom⟩
    · have := (h.gone_cases hs hf hk hg).resolve_right hdoom
      exact .inl ⟨by omega, hdoom⟩
  case unborn =>
    intro r hle
    refine ⟨?_, he.kept fun hg => absurd hg.1 (Nat.not_lt.mpr hle)⟩
    rw [← he.count, World.count, World.object?, Array.getElem?_eq_none hle]
    rfl
  case last =>
    intro r hw hof hkl hpos hzero
    have hv := h.advance_counting hs hw hf hof hkl
    rw [← he.count] at hpos
    have hlt : r < w.heap.size := by
      obtain ⟨o, ho⟩ := object?_of_count hpos
      exact lt_size_of_object? ho
    have hsize := h.size_le_next hs hw
    have hn := (h.exact_next hs hf hk hw hof hkl).count r
    rw [hzero] at hn
    obtain hg | ⟨below, hstk⟩ := hv.gone ⟨Nat.lt_of_lt_of_le hlt hsize, hn⟩
    · exact absurd hg.2 (Nat.ne_of_gt hpos)
    · have hone := count_of_next_drop hstk hpos hn
      refine ⟨he.count r ▸ hone, (next_drop hseat hstk hone).resolve_right fun hc => ?_, below, hstk⟩
      rw [hn] at hc
      cases hc
  case dropped =>
    intro r below hstk hone
    have hw : w.isHalted = false := by simp [isHalted, hstk]
    have hof : w.OnFacade := fun st rest below' hstk' => by simp [hstk] at hstk'
    have hkl : w.KeepsLinks := fun name new rest below' hstk' => by simp [hstk] at hstk'
    have hx := h.exact_next hs hf hk hw hof hkl
    rcases next_drop hseat hstk ((he.count r).trans hone) with hd | hc
    · refine .inl ⟨?_, hd⟩
      rw [← hx.count]
      by_contra hne
      exact (hx.kept fun hg => hne hg.2).2 (dooms_of_destroyed? hd)
    · refine .inr ⟨(hx.count r).symm.trans hc, hx.kept fun hg => ?_⟩
      rw [hg.2] at hc
      cases hc

/-- An object that comes back once is held by a greenlet and handed to another one, asked for as
what it is not, and dropped to the end twice. An error is put into a slot and taken from it. -/
def reviving : World :=
  Script.start .empty
    [("p", [.objectHold "y", .switch "@main" (.built [.object "x"] []) none none])]
    [.object "x" (.phoenix "x" 1), .objectClone "x" "y", .pendingSetError .threadExited,
      .pendingFetch "e", .create "p" "p" [] [] none none,
      .switch "p" (.built [.object "x"] []) none none, .objectGet "y" (some .str) .exact,
      .objectInto "y" (some .str) false, .drop "p", .objectDrop "x", .objectDrop "x"] 500

theorem Run.counted_reviving : ∃ tr, Run reviving tr (reviving.run 141) ∧
    (∀ v ∈ tr, v.OnFacade) ∧ (∀ v ∈ tr, v.KeepsLinks) ∧ Counted tr (reviving.run 141) := by
  obtain ⟨tr, h, hall⟩ := (@Run.start reviving).run_all (n := 141)
    (p := fun v => v.OnFacade ∧ v.KeepsLinks) (by decide +kernel)
  rw [List.append_nil] at h
  have hf : ∀ v ∈ tr, v.OnFacade := fun v hv => (hall v hv).1
  have hk : ∀ v ∈ tr, v.KeepsLinks := fun v hv => (hall v hv).2
  exact ⟨tr, h, hf, hk, Run.counted (.script ..) h hf hk⟩

end World

end Switchyard
