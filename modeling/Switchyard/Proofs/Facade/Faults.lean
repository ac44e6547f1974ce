import Switchyard.Proofs.Facade.Passing

/-!
# The end of a fiber, and panics

A fiber ends at its entry. A panic that gets there becomes its result, unless the fiber is being
unwound; then it goes on below the bottom of the fiber.
-/

namespace Switchyard

open World

namespace World

variable {A : Prop} {w : World} {m : Mode} {t : Task} {below : List (Item Task)} {hand : List Token}
  {h : HubId} {f : FiberId} {p : Payload}

theorem Staging.exists_seat {m₁ : Mode} {e : Edge} (hs : Staging A (some (m, e)) w)
    (hc : Covered hand w) (hm : Mode.of w.thread.stack = some m₁)
    (hf : Item.Filed w (w.active - 1) w.thread.stack) {r : Ref}
    (h₁ : m₁.ground.turn? = some (r, f)) (hturn : m.ground.turn? = some (r, f)) :
    ∃ h g, w.Owned h (w.active - 1) ∧ (w.hub h).closed = false ∧ (w.scene h m e).Fine A h ∧
      w.living? r = some g ∧ g.hub = h ∧ g.fiber = some ⟨w.active, f⟩ ∧
      (w.scene h m e).Suits A r g := by
  obtain ⟨h, ho, hb⟩ := Mode.belongs_of_turn hm hf h₁
  have hpos : 0 < w.count r := by
    rw [stack_eq_stackAt] at hm
    exact (Staging.exists_of_mode hc hm).1 r f h₁
  obtain ⟨hopen, hfine, g, hliv, hg, hfib, hsu⟩ := hs.seat ho hb hpos hturn
  exact ⟨h, g, ho, hopen, hfine, hliv, hg, hfib, hsu⟩

theorem Staging.conclude {r : Ref} (hs : Staging A (some (⟨.on r f .code, .none⟩, .plain)) w)
    (ho : w.Owned h (w.active - 1)) :
    Staging A (some (⟨.on r f .landed, .none⟩, .plain)) w :=
  hs.shift hs.exempt.1 (.of_threads rfl rfl rfl) rfl ho rfl rfl nofun (fun _ hi => by cases hi)
    fun _ hfine => hfine.conclude (o := (w.hub h).core.outgoing) .refl

theorem Staging.post {r : Ref} (hs : Staging A (some (⟨.on r f .code, .none⟩, .plain)) w)
    (ho : w.Owned h (w.active - 1)) (p : Payload) :
    Staging A (some (⟨.on r f .landed, .none⟩, .plain))
      (w.modifyHub h fun s => { s with outgoing := some (.result p) }) := by
  have hact : (w.hub h).thread = w.active := ho.2.trans (Nat.sub_add_cancel hs.seated.1)
  refine hs.shift (hs.exempt.1.modifyHub (fun _ => ⟨rfl, rfl, rfl⟩)
    (fun o => { o with posted := fun u q hq => by cases hq }) (fun _ _ _ _ _ hr => hr)
    (.inl ⟨rfl, hact⟩)) (.modifyHub _ _) (by simp [World.modifyHub]) ho ?_ ?_ nofun
    (fun _ hi => by cases hi) fun _ hfine => ?_
  · rw [hub_modifyHub _ _ _ ho.1, if_pos rfl]
  · rw [hub_modifyHub _ _ _ ho.1, if_pos rfl]
  · rw [scene_modifyHub ho.1]
    exact hfine.conclude (o := some (.result p)) .refl

theorem Staging.owned_unique {x : Option (Mode × Edge)} (hs : Staging A x w) {k : HubId} {i : Nat}
    (ho : w.Owned h i) (hk : w.Owned k i) : h = k :=
  hs.unique h k ho.1 hk.1 (ho.2.trans hk.2.symm)

theorem Staging.busy {e : Edge} (hs : Staging A (some (m, e)) w) (ho : w.Owned h (w.active - 1))
    (hm : m ≠ .idle) : (w.hub h).closed = false ∧ (w.scene h m e).Fine A h := by
  have hact : (w.hub h).thread = w.active := ho.2.trans (Nat.sub_add_cancel hs.seated.1)
  have hst := hs.staged h ho.1 m e (by rw [Shows, if_pos hact])
  have hopen : (w.hub h).closed = false := by
    by_contra hc
    exact hm (hst.shut (by simpa using hc))
  exact ⟨hopen, hst.fine hopen⟩

/-- The fiber `f` has come to its entry: where the thread stands there, and below it. -/
def AtEntry (f : FiberId) (m₁ m : Mode) : Prop :=
  (∃ r, m₁ = ⟨.on r f .landed, .none⟩ ∧ m = ⟨.on r f .code, .none⟩) ∨
    ∃ g r, m₁ = ⟨g, .off r f .landed⟩ ∧ m = ⟨g, .off r f .code⟩

theorem Staging.cancelling_iff {m₁ : Mode} (hs : Staging A (some (m, .plain)) w)
    (hc : Covered hand w) (h₁ : Mode.of w.thread.stack = some m₁) (hm : AtEntry f m₁ m)
    (hf : Item.Filed w (w.active - 1) w.thread.stack) (ho : w.Owned h (w.active - 1)) :
    (w.fiberD f).cancelling = true ↔ m.unwinding ≠ .none := by
  rcases hm with ⟨r, rfl, rfl⟩ | ⟨g, r, rfl, rfl⟩
  · obtain ⟨k, g, -, -, -, -, -, hfib, hsu⟩ := hs.exists_seat hc h₁ hf rfl rfl
    have hcan : (w.fiberD f).cancelling = false := (hsu.fiber _ hfib).2.1
    simp [hcan]
  · have hcan : (w.fiberD f).cancelling = true := ((hs.busy ho nofun).2.off r f .code rfl).2.1
    simp [hcan]

theorem Covered.post {o : Outgoing} (hc : Covered (o.tokens ++ hand) w) (hh : h < w.hubs.size)
    (hn : (w.hub h).outgoing = none) :
    Covered hand (w.modifyHub h fun s => { s with outgoing := some o }) := by
  refine hc.modifyHub (fun s hs k => ?_) fun hn => ?_
  · have hk : s.outgoing = none := by rw [← hub_of_some hs]; exact hn
    have hsup : Hub.supply { s with outgoing := some o } h k = s.supply h k := by
      cases k <;> rfl
    rw [hsup]
    simp only [Hub.tokens, hk, Option.map_some, Option.map_none, Option.getD_some,
      Option.getD_none, List.count_append, List.count_nil]
    omega
  · rw [Array.getElem?_eq_none_iff] at hn
    exact absurd hh (Nat.not_lt.mpr hn)

/-- The result of a fiber is left for the driver, unless the fiber is being unwound. -/
theorem Staging.postResult {m₁ : Mode} (hs : Staging A (some (m, .plain)) w)
    (hc : Covered p.tokens w) (h₁ : Mode.of w.thread.stack = some m₁) (hm : AtEntry f m₁ m)
    (hf : Item.Filed w (w.active - 1) w.thread.stack) (ho : w.Owned h (w.active - 1)) :
    Sound A (w.postResult h f p) := by
  have hiff := hs.cancelling_iff hc h₁ hm hf ho
  rcases hm with ⟨r, rfl, rfl⟩ | ⟨g, r, rfl, rfl⟩
  · obtain ⟨hopen, hfine⟩ := hs.busy ho (by rintro ⟨⟩)
    have hcan : (w.fiberD f).cancelling = false := by simpa using hiff
    have hlives := hs.lives hc ho.1 hopen
    have hout : (w.hub h).outgoing = none := hfine.outgoing rfl
    have hst := (hs.post ho p).push []
    have hcov : Covered [] (w.modifyHub h fun s => { s with outgoing := some (.result p) }) :=
      .post (hc.trade fun k => by simp [Outgoing.tokens]) ho.1 hout
    have hw : (w.modifyHub h fun s => { s with outgoing := some (.result p) }).Seated := hs.seated
    have hstk := stack_push hw []
    have hl : Later w ((w.modifyHub h fun s => { s with outgoing := some (.result p) }).push []) :=
      (Later.modifyHub' h (f := fun s => { s with outgoing := some (.result p) })
        fun _ => ⟨rfl, rfl, rfl⟩).trans (.of_eq rfl rfl rfl)
    rw [World.postResult, hcan, hlives, hout]
    refine ⟨⟨_, ?_, hst.edge _⟩, hcov.push hw fun _ => Nat.le_refl _, ?_⟩
    · exact (congrArg Mode.of hstk).trans h₁
    · exact hstk.symm ▸ hf.later hl
  · have hcan : (w.fiberD f).cancelling = true := hiff.mpr (by rintro ⟨⟩)
    have hst : Steady A p.tokens ⟨g, .off r f .landed⟩ w :=
      ⟨hs.reunwind ho (by simp) (by simp) (fun _ _ _ hx => by cases hx; exact ⟨(by simp), _, rfl⟩) fun _ h => h, hc,
        h₁, hf⟩
    have h₂ : Steady A [] ⟨g, .off r f .landed⟩ (w.push (Task.dropPayload p)) :=
      hst.pushFree rfl (Task.all_isFree_dropPayload p) fun k => by simp
    simpa [World.postResult, hcan] using h₂.sound

variable {σ : Task}

theorem Sound.meet_entry (hs : Sound A w)
    (hstk : w.thread.stack = .task σ :: .task (.entry h f) :: below)
    (hr : σ.role = .code ∨ σ.role = .fail) : ∃ m₁ m, AtEntry f m₁ m ∧
      Staging A (some (m, .plain)) ((w.setStack (.task (.entry h f) :: below)).setStack below) ∧
      Covered σ.tokens ((w.setStack (.task (.entry h f) :: below)).setStack below) ∧
      Mode.of ((w.setStack (.task (.entry h f) :: below)).setStack below).thread.stack =
        some m₁ ∧
      Item.Filed ((w.setStack (.task (.entry h f) :: below)).setStack below) (w.active - 1)
        ((w.setStack (.task (.entry h f) :: below)).setStack below).thread.stack ∧
      ((w.setStack (.task (.entry h f) :: below)).setStack below).Owned h (w.active - 1) := by
  obtain ⟨m₁, m₀, m, h₁, h₀, hσ, hst, hc, hf, hft, hstk'⟩ := hs.pop_signal hstk hr
  refine ⟨m₁, m, ?_, hst, hc, by rw [hstk']; exact h₁, by rw [hstk']; exact hf, hft⟩
  rcases Mode.of_step_entry h₀ rfl with ⟨r, rfl, rfl⟩ | ⟨g, r, rfl, rfl⟩ <;>
    rcases Mode.of_step_signal hσ hr with ⟨rfl, -⟩ | ⟨-, g, r, f, h, -⟩
  · exact .inl ⟨r, rfl, rfl⟩
  · cases h
  · exact .inr ⟨g, r, rfl, rfl⟩
  · cases h

theorem Sound.result (hs : Sound A w) {rest : List (Item Task)}
    (hstk : w.thread.stack = .task (.result p) :: rest) (hctx : Context.of rest = some .entry) :
    Sound A ((w.setStack rest).signal (World.result p)) := by
  obtain ⟨t, below, c, rfl, hb, hi⟩ := exists_below hctx ⟨nofun, nofun⟩
  rw [signal_eq hs.seated]
  cases t with
  | entry h f =>
    obtain ⟨m₁, m, he, hst, hc, h₁, hf, ho⟩ := hs.meet_entry hstk (.inl rfl)
    exact hst.postResult hc h₁ he hf ho
  | _ =>
    rcases Context.entry_below hi with rfl | ⟨i, f, h, -⟩
    · exact hs.pass_over hstk rfl hb hi ⟨nofun, nofun⟩ nofun
    · cases h

theorem Sound.entry (hs : Sound A w) (hstk : w.thread.stack = .task (.entry h f) :: below) :
    Sound A (w.setStack below) := by
  obtain ⟨m₁, m, h₁, hi, hst, hc, hf, hft⟩ := hs.pop hstk
  have hstk' := stack_setStack hs.seated below
  have hst' : Staging A (some (m₁, .plain)) (w.setStack below) := by
    rcases Mode.of_step_entry hi rfl with ⟨r, rfl, rfl⟩ | ⟨g, r, rfl, rfl⟩
    · exact Staging.conclude hst hft
    · exact Staging.reunwind hst hft nofun nofun (fun _ _ _ hx => by cases hx; exact ⟨nofun, _, rfl⟩)
        fun _ h => h
  exact ⟨⟨m₁, by rw [hstk']; exact h₁, hst'.edge _⟩, hc, by rw [hstk']; exact hf⟩

theorem Steady.quiet {w' : World} (hs : Steady A hand m w) (hq : Quiet w w') :
    Steady A hand m w' :=
  hs.same (hs.staging.quiet hq) (hs.covered.quiet hq) (.of_quiet hq) hq.active
    (hq.thread hs.seated).1

theorem Steady.panics (hs : Steady A hand m w) (hm : m.isOpen = true) (p : Panic) :
    Steady A hand m (w.push [.fail p]) :=
  hs.push hm (fun t ht => by simp only [List.mem_singleton] at ht; subst ht; exact .inr rfl)
    ⟨trivial, hs.filed⟩ (hs.covered.push hs.seated fun k => by simp [Task.tokens])

theorem Steady.exitThread (hs : Steady A [] .idle w) : Sound A w.exitThread := by
  unfold World.exitThread
  dsimp only
  have hq : Quiet w (if w.active = 1 then { w with exitFrom := some w.events.length } else w) := by
    split
    · exact ⟨rfl, rfl, rfl, rfl, rfl, rfl, rfl, rfl, rfl, rfl, rfl⟩
    · exact .refl w
  have h₁ := hs.quiet hq
  generalize (if w.active = 1 then { w with exitFrom := some w.events.length } else w) = v at h₁ ⊢
  generalize w.events.length = n
  have hl : Later v (v.push [.exitSlots, .sortFrom n]) := .of_eq rfl rfl rfl
  have hm : Mode.of (.task (.sortFrom n) :: v.thread.stack) = some .idle :=
    Mode.of_cons_of h₁.mode rfl
  have hm' : Mode.of (.task .exitSlots :: .task (.sortFrom n) :: v.thread.stack) = some .idle :=
    Mode.of_cons_of hm rfl
  refine ⟨⟨.idle, ?_, (h₁.staging.push _).edge _⟩, h₁.covered.push h₁.seated fun k => by
    simp [Task.tokens], ?_⟩ <;> rw [stack_push h₁.seated]
  · exact hm'
  · exact ⟨trivial, trivial, h₁.filed.later hl⟩

theorem Sound.failTask (hs : Sound A w) {p : Panic}
    (hstk : w.thread.stack = .task (.fail p) :: .task t :: below) (hA : t.isVital = true → A) :
    Sound A (World.failTask p t ((w.setStack (.task t :: below)).setStack below)) := by
  have hpass (he : ∀ f, t.role ≠ .entry f) :
      Sound A (((w.setStack (.task t :: below)).setStack below).pass t (.fail p)) :=
    hs.pass hstk (.inr rfl) (.inl rfl) he hA
  cases t with
  | nestEnd how =>
    cases how with
    | attemptPanic again =>
      refine hs.meets hstk (.inr rfl) rfl (fun r => by simp [Task.tokens]) ?_
      have e : Effect .full [] ((w.setStack (.task (.nestEnd (.attemptPanic again)) :: below)).setStack below) []
          (((w.setStack (.task (.nestEnd (.attemptPanic again)) :: below)).setStack below).calm.note
            (Script.nestingName (.attemptPanic again)) [panicDatum p]) :=
        (Effect.quiet .calm).note _ _
      unfold World.failTask
      dsimp only
      split
      · exact e.trans (.fail p)
      · exact e
    | _ => exact hpass (by simp [Task.role])
  | mainGuard =>
    exact hs.meets hstk (.inr rfl) rfl (fun r => by simp [Task.tokens])
      ((Effect.quiet .calm).trans (.quiet (.event _ _)))
  | entry h f =>
    obtain ⟨m₁, m, he, hst, hc, h₁, hf, ho⟩ := hs.meet_entry hstk (.inr rfl)
    have hact : ((w.setStack (.task (.entry h f) :: below)).setStack below).active = w.active := rfl
    generalize (w.setStack (.task (.entry h f) :: below)).setStack below = v at *
    rw [← hact] at hf ho
    have hiff := hst.cancelling_iff hc h₁ he hf ho
    unfold World.failTask
    dsimp only
    split
    · rename_i hcan
      rcases he with ⟨r, rfl, rfl⟩ | ⟨g, r, rfl, rfl⟩
      · exact absurd rfl (hiff.mp hcan)
      · have h₂ : Steady A [] ⟨g, .off r f .landed⟩ v :=
          ⟨hst.reunwind ho (by simp) (by simp) (fun _ _ _ hx => by cases hx; exact ⟨(by simp), _, rfl⟩) fun _ h => h,
            hc, h₁, hf⟩
        exact (h₂.panics rfl p).sound
    · have hq : Quiet v v.calm := .calm
      have hs' := (hq.thread hst.seated).1
      refine Staging.postResult (hst.quiet hq) (hc.quiet hq) (by rw [hs']; exact h₁) he ?_
        (ho.later (.of_quiet hq))
      rw [hs']
      exact hf.later (.of_quiet hq)
  | exitThread =>
    obtain ⟨m₁, m₀, m, h₁, h₀, hσ, hst, hc, hf, -, hstk'⟩ := hs.pop_signal hstk (.inr rfl)
    obtain ⟨rfl, rfl⟩ := Mode.of_step_ground h₀ (g := .idle) rfl
    obtain rfl : m = .idle := by cases hσ; rfl
    have hact : ((w.setStack (.task .exitThread :: below)).setStack below).active = w.active := rfl
    generalize (w.setStack (.task .exitThread :: below)).setStack below = v at *
    rw [← hact] at hf
    have h₂ : Steady A [] .idle v := ⟨hst, hc, by rw [hstk']; exact h₁, by rw [hstk']; exact hf⟩
    have h₃ := h₂.quiet .calm
    unfold World.failTask
    dsimp only
    generalize v.calm = u at h₃
    have hq : Quiet u (u.modifyThread fun t => { t with panicked := some p }) :=
      .modifyThread fun _ => ⟨rfl, rfl, rfl, rfl⟩
    exact (h₃.quiet hq).exitThread
  | _ => exact hpass (by simp [Task.role])

/-- A panic meets the bottom of a fiber. -/
theorem Sound.failBase (hs : Sound A w) {p : Panic} {forced : Bool}
    (hstk : w.thread.stack = .task (.fail p) :: .base f forced :: below) :
    Sound A (World.failBase p f forced ((w.setStack (.base f forced :: below)).setStack below)) := by
  obtain ⟨m₀, m, h₀, hσ, hst, hc, hf, -⟩ := hs.pop hstk
  obtain ⟨m₁, h₁, hb⟩ := Mode.of_cons h₀
  have hw : (w.setStack (.base f forced :: below)).Seated := (seated_modifyThread _).mpr hs.seated
  have hstk' := stack_setStack hw below
  rcases Mode.of_step_base hb with ⟨rfl, r, rfl, rfl⟩ | ⟨rfl, g, r, rfl, rfl⟩
  · cases hσ
  · obtain rfl : m = ⟨g, .off r f .landed⟩ := by cases hσ; rfl
    have hl : Later (w.setStack (.base f true :: below))
      ((w.setStack (.base f true :: below)).setStack below) := .of_eq rfl rfl rfl
    have hc' : Covered [] ((w.setStack (.base f true :: below)).setStack below) :=
      hc.setStack hw fun k => by
        rw [stack_setStack hs.seated, Item.tokensOf_cons]
        simp [Item.tokens, Task.tokens]
    have h₂ : Steady A [] ⟨g, .bare r⟩
        (((w.setStack (.base f true :: below)).setStack below).modifyFiber f Fiber.settle) :=
      (hst.setStack below).landed hc' (by rw [hstk']; exact h₁)
        (by rw [hstk']; exact Item.Filed.later (s := below) hf hl)
    have he := modifyFiber_eq (f := f) (w := (w.setStack (.base f true :: below)).setStack below)
      ((seated_modifyThread _).mpr hw) Fiber.settle
    unfold World.failBase
    rw [he] at h₂
    dsimp only
    split
    · exact (h₂.quiet .calm).sound
    · exact (h₂.panics rfl p).sound

theorem Sound.fault (hs : Sound A w) {p : Panic} {rest : List (Item Task)}
    (hstk : w.thread.stack = .task (.fail p) :: rest)
    (hA : ∀ t below, rest = .task t :: below → t.isVital = true → A) :
    Sound A ((w.setStack rest).fault p) := by
  rw [World.fault, stack_setStack hs.seated]
  cases rest with
  | nil =>
    obtain ⟨m₀, m, h₀, hσ, hst, hc, hf, -⟩ := hs.pop hstk
    obtain rfl := Option.some.inj h₀
    obtain rfl : m = .idle := by cases hσ; rfl
    have hstk' := stack_setStack hs.seated ([] : List (Item Task))
    exact ⟨⟨.idle, by rw [hstk']; rfl, Staging.edge hst _⟩, hc, by rw [hstk']; exact hf⟩
  | cons i below =>
    cases i with
    | task t => exact hs.failTask hstk (hA t below rfl)
    | base f forced => exact hs.failBase hstk

end World

end Switchyard
