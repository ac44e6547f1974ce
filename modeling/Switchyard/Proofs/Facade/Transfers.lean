import Switchyard.Proofs.Facade.Targets

/-!
# Transfers of control

A switch is asked for; a fiber is entered, continued, left, and comes to its end.
-/

namespace Switchyard

open World

namespace World

variable {A : Prop} {w w' : World} {m m₀ m' : Mode} {e e' : Edge} {t : Task}
  {below : List (Item Task)} {hand hand' : List Token} {h : HubId} {f : FiberId} {p : Payload}
  {r target : Ref} {g : Ground}

theorem spare_of_lent (hw : w.Seated) {u : Task} {rest : List (Item Task)}
    (hstk : w.thread.stack = .task (.leaveHub h) :: .task u :: rest) (hu : u.lends = true)
    (ht : .object target ∈ u.tokens) : 0 < w.spare target := by
  have hns : .sole target ∉ u.tokens := by
    cases u with
    | switched => simp [Task.tokens]
    | rally x => simp [Task.tokens]
    | _ => cases hu
  refine spare_of_thread hw.getElem? ?_
  have hu₁ : 0 < u.tokens.count (.object target) := List.count_pos_iff.mpr ht
  have hu₀ : u.tokens.count (.sole target) = 0 := List.count_eq_zero.mpr hns
  have hrest := Item.paired_tokensOf rest target
  have hslots : (w.thread.pending.tokens .object).count (.sole target) = 0 ∧
      (w.thread.home.tokens .hub).count (.sole target) = 0 := by
    constructor <;> exact List.count_eq_zero.mpr (by simp [Slot.tokens])
  have hleave : (Task.leaveHub h).tokens.count (.sole target) = 0 :=
    List.count_eq_zero.mpr (by simp [Task.tokens])
  simp only [Token.surplus, Thread.tokens, hstk, Item.tokensOf_cons, Item.tokens,
    List.count_append]
  omega

theorem Poised.request (hs : Poised A (.object target :: p.tokens) m m .plain w)
    (hm : m.isOpen = true) (ho : w.Owned h (w.active - 1)) (hopen : (w.hub h).closed = false)
    (hbusy : (w.hub h).isBusy = false) (hb : w.Belongs target h) :
    Sound A (if (w.hub h).runningFiber then w.switchFromFiber h target p
      else w.push [.drive h target p]) := by
  have hact : (w.hub h).thread = w.active := ho.2.trans (Nat.sub_add_cancel hs.seated.1)
  have hfine := (hs.staging.exempt.2 h ho.1 hact).fine hopen
  simp only [Hub.isBusy, Bool.or_eq_false_iff] at hbusy
  obtain ⟨ground, unw⟩ := m
  obtain rfl : unw = .none := by
    by_contra hn
    exact Bool.false_ne_true (hbusy.1.symm.trans (hfine.releasing hn))
  have hrun : (w.hub h).runningFiber = ground.isRunning := hfine.running
  have hdr : (w.hub h).driving = ground.isDriving := hfine.driving
  rw [hdr, hrun] at hbusy
  have ht := Turning.start hs.staging ho
  cases ground with
  | idle =>
    have hst : Staging A (some (⟨.asked, .none⟩, .plain)) w :=
      ht.take hs.staging (by rintro _ ⟨⟩) (fun _ => hopen) ⟨rfl, rfl⟩ fun _ hf => hf.ask .refl
    rw [hrun]
    refine (hs.turn hst hs.covered (.refl w) rfl rfl).push rfl (.inl rfl) ⟨⟨ho, hb⟩, hs.filed⟩
      fun k => by simp [Task.tokens]
  | on r f x =>
    obtain rfl : x = .code := by cases x <;> first | rfl | cases hm
    obtain ⟨k, g, hk, -, -, hl, -, hf, -⟩ := hs.staging.exists_seat hs.covered hs.mode hs.filed
      (r := r) (f := f) rfl rfl
    have hcur : (w.hub h).current = r := hfine.seated r f rfl rfl
    have hout : (w.hub h).outgoing = none := hfine.outgoing rfl
    have hst : Staging A (some (⟨.on r f .suspended, .none⟩, .plain))
        (w.modifyHub h fun s => { s with outgoing := some (.switch target p) }) :=
      (ht.modifyHub (u := fun s => { s with outgoing := some (.switch target p) })
        (fun _ => ⟨rfl, rfl, rfl, rfl⟩) fun o => { o with
          posted := fun u q hq => by cases hq; exact hb }).take hs.staging (by rintro _ ⟨⟩) (by rintro ⟨⟩) ⟨rfl, rfl⟩
            fun _ hfine => hfine.post .refl
    have hl' : Later w (w.modifyHub h fun s => { s with outgoing := some (.switch target p) }) :=
      .modifyHub' h fun _ => ⟨rfl, rfl, rfl⟩
    have hcov : Covered [] (w.modifyHub h fun s => { s with outgoing := some (.switch target p) }) :=
      .post (hs.covered.trade fun k => by simp [Outgoing.tokens]) ho.1 hout
    unfold World.switchFromFiber
    simp only [hrun, Ground.isRunning, if_true, hcur, greenlet_of_some (greenlet?_of_living hl), hf,
      Option.bind_some, Pinned.get?, if_true, hout]
    refine (hs.turn hst hcov hl' rfl rfl).push (l := [.suspend h f]) ?_ (.inl rfl)
      ⟨ho.later hl', hs.filed.later hl'⟩ fun k => by simp [Task.tokens]
    simp [Mode.upon, Mode.step, Ground.step, Spot.step, Task.role]
  | asked => cases hm
  | back => cases hm
  | _ => cases hbusy.2

theorem Sound.switch (hs : Sound A w)
    (hstk : w.thread.stack = .task (.switch h target p) :: below) :
    Sound A ((w.setStack below).switch h target p) := by
  obtain ⟨m, hm, hp, ho, u, rest, hbelow, hu, ht⟩ := hs.pop_code hstk rfl
  have hstk' := (stack_setStack hs.seated below).trans hbelow
  have hact : (w.setStack below).active = w.active := rfl
  rw [← hact] at ho
  generalize w.setStack below = v at *
  have hp' : Poised A p.tokens m m .plain v := ⟨hp.staging, hp.covered, hp.mode, hp.filed⟩
  unfold World.switch
  split
  · rename_i err _
    refine hp'.effect hm (by simp) ((Effect.raise err).pushing
      (by simp [Task.isPlain, Task.all_isPlain_dropPayload]) fun k => ?_)
    simp [Task.tokens]
  · rename_i herr
    dsimp only
    split
    · have hd : Effect .full (p.tokens ++ []) (v.trace ("greenlet " ++
          (v.greenlet target).id.text ++ ": switch to self")) [] _ := .deliver p fun _ _ => trivial
      rw [List.append_nil] at hd
      exact hp'.effect hm (by simp) (.trans (.quiet (.write _ _)) hd)
    · have hsp := spare_of_lent hp.seated hstk' hu ht
      have hcov := hp.covered.copy (r := target) (.inl hsp) (by simp [Task.tokens])
      have hpos : 0 < v.count target := by
        have h₁ := hp.covered (.object target) rfl
        have h₂ := demand_object v target
        rw [supply_object] at h₁
        omega
      have hl : Later v (v.retain target) := .retain target
      obtain ⟨hopen, hbusy, hthread⟩ : (v.hub h).closed = false ∧ (v.hub h).isBusy = false ∧
          (v.greenlet target).thread = (v.hub h).thread := by
        unfold World.switchError? at herr
        simp only [bne_iff_ne, ne_eq] at herr
        split at herr <;> [cases herr; skip]
        split at herr <;> [cases herr; skip]
        split at herr <;> [cases herr; skip]
        simp_all
      have hb := hp.staging.belongs ho.1 hthread
      exact (hp'.turn (hp.staging.retain hpos) hcov hl rfl rfl).request hm (ho.later hl) hopen hbusy
        (hb.later hl)

theorem Staging.pinned {x : Option (Mode × Edge)} (hs : Staging A x w) {k : Greenlet}
    (hk : w.greenlet? r = some k) (hf : k.fiber = some ⟨w.active, f⟩) :
    Scene.Pinned h w.living? r f := fun q g p hq _ hp hv =>
  hs.pins q r g k p _ (greenlet?_of_living hq) hk hp hf hv

theorem Turning.setControl {v : World} {s : Hub} {G : Ref → Option Greenlet}
    {F : FiberId → Fiber Task} (ht : Turning A w h s G F v) {k : Greenlet} {c : Control Task}
    {u : Fiber Task → Fiber Task} (hk : v.greenlet? r = some k) (hh : k.hub = h)
    (hp : k.fiber = some ⟨v.active, f⟩) (hc : c.fibers = v.fibers.modify f u)
    (hl : (F f).Later (u (F f))) (hf : (u (F f)).Filed v h (v.active - 1) f) :
    Turning A w h s G (fun q => if q = f then u (F q) else F q) (v.setControl c) := by
  have hlt : f < v.fibers.size := by
    obtain ⟨n, -, hd⟩ := ht.staging.decent hk
    exact (hd.saved _ hp).1
  have hF (q : FiberId) : F q = v.fiberD q := by rw [← ht.fiberD]
  have hl' : Later v (v.setControl c) := .setControl fun q x hx => by
    rw [hc, Array.getElem?_modify]
    split
    · subst_vars
      refine ⟨u x, by rw [hx]; rfl, ?_⟩
      rwa [hF, fiberD_of_some hx] at hl
    · exact ⟨x, hx, .refl x⟩
  have hfd (q : FiberId) : (v.setControl c).fiberD q = if q = f then u (F q) else F q := by
    rw [fiberD_eq, show (v.setControl c).fibers = c.fibers from rfl, hc, Array.getElem?_modify, hF,
      fiberD_eq]
    split
    · subst_vars
      rw [if_pos rfl, Array.getElem?_eq_getElem hlt]
      rfl
    · rw [if_neg fun h => ‹¬ _› h.symm]
  refine ⟨ht.staging.fibers (.setControl ht.seated c) rfl rfl hl' ?_ fun q g p hq hpf => ?_,
    ht.later.trans hl', ht.beside.trans (.setControl ht.seated c), ht.size, ht.owned, ht.hub,
    ht.living, funext hfd⟩
  · rw [show (v.setControl c).fibers = c.fibers from rfl, hc, Array.size_modify]
  · rw [hfd, ← hF]
    split
    · rename_i hv
      obtain rfl := ht.staging.pins q r g k p _ hq hk hpf hp hv
      obtain rfl : g = k := Option.some.inj (hq.symm.trans hk)
      obtain rfl : p = ⟨v.active, f⟩ := Option.some.inj (hpf.symm.trans hp)
      refine .inr ⟨?_, rfl, hh ▸ ht.thread_eq⟩
      rw [hh, ht.thread_eq]
      exact hf.later hl'
    · exact .inl (.refl _)

theorem Staging.transfer (hs : Staging A (some (m, .plain)) w) (hc : Covered [] w)
    {s : List (Item Task)} (hstk : w.thread.stack = s) (hm : Mode.of s = some m)
    (hf : Item.Filed w (w.active - 1) s) : Sound A w :=
  ⟨⟨m, by rw [hstk]; exact hm, hs.edge _⟩, hc, by rw [hstk]; exact hf⟩

/-- A fiber that has no stack of its own, because it is on the control stack, gets one. -/
theorem Fiber.later_of_active {s s' : Fiber Task} (h : s.phase = .active)
    (hc : s'.cancelling = s.cancelling) : s.Later s' :=
  ⟨fun ho => by simp [Fiber.isOver, h] at ho, fun ht => by simp [Fiber.isTaken, h] at ht,
    fun hs => hc.trans hs⟩

theorem Sound.suspend (hs : Sound A w) (hstk : w.thread.stack = .task (.suspend h f) :: below) :
    Sound A ((w.setStack below).suspend h f) := by
  obtain ⟨m₀, m, hi, hp, ho⟩ := hs.poise hstk
  obtain ⟨r, rfl, rfl⟩ := Mode.of_step_suspend hi rfl
  generalize w.setStack below = v at *
  obtain ⟨k, g, hk, hopen, hfine, hl, hh, hf, hsu⟩ :=
    hp.staging.exists_seat hp.covered hp.mode hp.filed (r := r) (f := f) rfl rfl
  obtain rfl := hp.staging.owned_unique hk ho
  have hg := greenlet?_of_living hl
  obtain ⟨-, hact, harm, -⟩ := Ground.places_on.mp (hsu.fiber _ hf).2
  replace harm : (v.fiberD f).armed = true := harm
  obtain ⟨above, rest, hstk', hsplit, hback, hwalk⟩ := Mode.of_on hp.mode
  have hpush := stack_push hp.seated [.resumed k]
  have hctl : (v.push [.resumed k]).control.suspend = some
      { fibers := v.fibers.modify f fun s => { s with phase := .parked (.task (.resumed k) :: above) },
        stack := rest, lost := v.lost } := by
    have hsplit' : Control.split (v.push [.resumed k]).control.stack =
        some (.task (.resumed k) :: above, f, false, rest) := by
      rw [show (v.push [.resumed k]).control.stack = (v.push [.resumed k]).thread.stack from rfl,
        hpush]
      simp [Control.split, hsplit]
    rw [Control.suspend, hsplit']
    rfl
  have hfil := hp.filed
  rw [hstk'] at hfil
  obtain ⟨habove, hrest⟩ := hfil.split
  have hcov : Covered [] (v.push [.resumed k]) := hp.covered.push hp.seated fun x => by
    simp [Task.tokens]
  unfold World.suspend
  rw [if_pos harm, hctl]
  have hw' : (v.push [.resumed k]).Seated := (seated_modifyThread _).mpr hp.seated
  have hcov' : Covered [] ((v.push [.resumed k]).setControl _) := hcov.setControl hw' fun x => by
    have h₁ := Control.claims_suspend hctl x
    have h₂ := Control.backing_suspend hctl x
    rw [h₂]
    exact Nat.add_le_add_right (Nat.add_le_add_right h₁ _) _
  rw [setControl_push] at hcov'
  have ht := (Turning.start hp.staging ho).setControl
    (u := fun s => { s with phase := .parked (.task (.resumed k) :: above) })
    (c := {
      fibers := v.fibers.modify f fun s => { s with phase := .parked (.task (.resumed k) :: above) }
      stack := rest, lost := v.lost })
    hg hh hf rfl (Fiber.later_of_active hact rfl) ⟨ho, habove⟩
  have hst : Staging A (some (⟨.back r f, .none⟩, .plain)) _ :=
    ht.take hp.staging (by rintro _ ⟨⟩) (by rintro ⟨⟩) ⟨rfl, rfl⟩ fun _ hfine => hfine.leave
      (l := .task (.resumed k) :: above) (by simp [Spot.walk, hwalk, Spot.step, Task.role])
      (hp.staging.pinned hg hf) (fun q hq => if_neg hq) (if_pos rfl) .refl
  exact hst.transfer hcov' (stack_setControl hp.seated _) hback (hrest.later ht.later)

theorem Sound.resumed (hs : Sound A w) (hstk : w.thread.stack = .task (.resumed h) :: below) :
    Sound A ((w.setStack below).resumed h) := by
  obtain ⟨m₀, m, hi, hp, ho⟩ := hs.poise hstk
  rcases Mode.of_step_resuming hi rfl with ⟨r, f, rfl, rfl⟩ | ⟨g, r, f, rfl, rfl⟩
  · generalize w.setStack below = v at *
    obtain ⟨k, g, hk, hopen, hfine, hl, hh, hf, hsu⟩ :=
      hp.staging.exists_seat hp.covered hp.mode hp.filed (r := r) (f := f) rfl rfl
    obtain rfl := hp.staging.owned_unique hk ho
    have hcur : (v.hub k).current = r := hfine.seated r f rfl rfl
    have hg := greenlet?_of_living hl
    have hb : v.Belongs r k := hh ▸ belongs_of_greenlet? hg
    have ht := (Turning.start hp.staging ho).restate (u := fun g => { g with inbox := none })
      (fun _ => rfl) (fun _ h => h) (fun _ h => h) hb
    have hst : Staging A (some (⟨.on r f .code, .none⟩, .plain))
        (v.modifyGreenlet r fun g => { g with inbox := none }) :=
      ht.take hp.staging (by rintro _ ⟨⟩) (by rintro ⟨⟩) ⟨rfl, rfl⟩ fun _ hfine => hfine.read
        (.modify (fun g _ => ⟨by simp, rfl⟩) fun q g hq => by simp [hq])
    have hcov : Covered (g.inbox.getD (.ok .empty)).tokens
        (v.modifyGreenlet r fun g => { g with inbox := none }) := by
      refine hp.covered.modifyGreenlet (fun k hk x => ?_) fun hn => by rw [hg] at hn; cases hn
      obtain rfl : k = g := Option.some.inj (hk.symm.trans hg)
      have hemp : (Payload.tokens (.ok .empty)).count x = 0 := rfl
      cases hin : k.inbox <;> simp [Greenlet.tokens, hin, hemp, Task.tokens]
      omega
    have h₁ := hp.turn hst hcov ht.later ht.beside.active rfl
    have hd : Effect .full ((g.inbox.getD (.ok .empty)).tokens ++ [])
      (v.modifyGreenlet r fun g => { g with inbox := none }) [] _ := .deliver _ fun _ _ => trivial
    rw [List.append_nil] at hd
    unfold World.resumed
    simp only [hcur, greenlet_of_some hg]
    exact h₁.effect rfl (by simp) hd
  · exact absurd rfl ((hp.staging.busy ho (by rintro ⟨⟩)).2.off r f .resumed rfl).2.2

theorem Staging.mounts (hs : Staging A (some (⟨.starting r f, .none⟩, .plain)) w)
    (ho : w.Owned h (w.active - 1)) {k : Greenlet} (hl : w.living? r = some k) (hh : k.hub = h)
    (hf : k.fiber = some ⟨w.active, f⟩) {c : Control Task} (hc : c.fibers = w.fibers) :
    ∃ c' u s x, c.resume f = some c' ∧ c'.fibers = w.fibers.modify f u ∧
      c'.stack = s ++ .base f false :: c.stack ∧ Spot.walk (Spot.step f) s = some x ∧
      Item.Filed w (w.active - 1) s ∧ (w.fiberD f).Later (u (w.fiberD f)) ∧
      (u (w.fiberD f)).phase = .active ∧
      ((w.scene h ⟨.starting r f, .none⟩ .plain).Fine A h → Scene.Fine A h
        ⟨{ (w.hub h).core with runningFiber := true }, w.living?,
          fun q => if q = f then u (w.fiberD q) else w.fiberD q, ⟨.on r f x, .none⟩, .plain⟩) := by
  have hact : (w.hub h).thread = w.active := ho.2.trans (Nat.sub_add_cancel hs.seated.1)
  have hg := greenlet?_of_living hl
  obtain ⟨hopen, hfine⟩ := hs.busy ho nofun
  have hsu := hfine.suits r k hl hh
  obtain ⟨n, -, hd⟩ := hs.decent hg
  obtain ⟨hlt, hsaved⟩ := hd.saved _ hf
  rw [hh, hact] at hsaved
  have hpin := hs.pinned (h := h) hg hf
  have hfd : c.fiberD f = w.fiberD f := by rw [Control.fiberD, hc, fiberD_eq]
  obtain ⟨-, hph⟩ := (hsu.fiber _ hf).2
  unfold Fiber.Filed at hsaved
  unfold Control.resume
  rw [hfd]
  cases hp : (w.fiberD f).phase with
  | fresh entry discard =>
    simp only [hp] at hsaved
    obtain ⟨⟨run, args, rfl⟩, -⟩ := hsaved
    refine ⟨_, fun s => { s with phase := .active, armed := true, started := true }, _, .code, rfl,
      by rw [Control.modify, hc], rfl, ?_, ⟨trivial, ho, trivial⟩, ?_, rfl, fun hfine => ?_⟩
    · simp [Spot.walk, Spot.step, Task.role]
    · exact ⟨fun h => by simp [Fiber.isOver, hp] at h, fun h => by simp [Fiber.isTaken, hp] at h, id⟩
    · exact hfine.enter hp hpin (fun q hq => if_neg hq) (if_pos rfl) .refl
  | parked st =>
    simp only [hp] at hsaved
    have hw : Spot.walk (Spot.step f) st = some .resumed := by
      simp only [scene, hp] at hph
      exact hph.2.2.2
    refine ⟨_, fun s => { s with phase := .active }, st, .resumed, rfl, by rw [Control.modify, hc],
      rfl, hw, hsaved, ?_, rfl, fun hfine => ?_⟩
    · exact ⟨fun h => by simp [Fiber.isOver, hp] at h, fun h => by simp [Fiber.isTaken, hp] at h, id⟩
    · exact hfine.reenter hp hpin (fun q hq => if_neg hq) (if_pos rfl) .refl
  | active =>
    simp only [scene, hp] at hph
    obtain ⟨x, hx⟩ := hph.2.2
    cases hx
  | ended =>
    simp only [scene, hp] at hph
    cases hph.2
  | taken => simp only [scene, hp] at hph

theorem Sound.driveResume (hs : Sound A w)
    (hstk : w.thread.stack = .task (.driveResume h target f) :: below) :
    Sound A ((w.setStack below).driveResume h target f) := by
  obtain ⟨m₀, m, hi, hp, ho, hb⟩ := hs.poise hstk
  obtain ⟨rfl, rfl⟩ := Mode.of_step_ground hi (g := .starting target f) rfl
  generalize w.setStack below = v at *
  obtain ⟨g, hg, hl, hh, hsu⟩ := hp.suits ho hb (by simp [Task.tokens]) (by rintro ⟨⟩)
  have hact : (v.hub h).thread = v.active := ho.2.trans (Nat.sub_add_cancel hp.seated.1)
  have hfib : g.fiber = some ⟨v.active, f⟩ := by
    rw [← hact]
    exact (hsu.turn f rfl).1
  obtain ⟨c, u, st, x, hres, hfs, hcs, hwalk, hfil, hlat, hphase, hf⟩ :=
    Staging.mounts hp.staging ho hl hh hfib
      (c := ((v.modifyHub h fun s => { s with runningFiber := true }).push
        [.driveBack h target f]).control) rfl
  have ht := (Turning.start hp.staging ho).modifyHub (u := fun s => { s with runningFiber := true })
    (fun _ => ⟨rfl, rfl, rfl, rfl⟩) fun o => { o with }
  have hcov := hp.covered.modifyHub_of_eq (h := h) (f := fun s => { s with runningFiber := true })
    fun _ => ⟨rfl, rfl, rfl⟩
  have hg₁ : (v.modifyHub h fun s => { s with runningFiber := true }).greenlet? target = some g := hg
  have hstk₁ : (v.modifyHub h fun s => { s with runningFiber := true }).thread.stack =
    v.thread.stack := rfl
  have ha₁ : (v.modifyHub h fun s => { s with runningFiber := true }).active = v.active := rfl
  have hf₁ : (v.modifyHub h fun s => { s with runningFiber := true }).fibers = v.fibers := rfl
  unfold World.driveResume
  dsimp only
  rw [hres]
  generalize (v.modifyHub h fun s => { s with runningFiber := true }) = y at *
  have hpush := stack_push ht.seated [.driveBack h target f]
  have hcov₁ : Covered [] (y.push [.driveBack h target f]) := hcov.push ht.seated fun x => by
    simp [Task.tokens]
  have hw' : (y.push [.driveBack h target f]).Seated := (seated_modifyThread _).mpr ht.seated
  have hcov₂ : Covered [] ((y.push [.driveBack h target f]).setControl c) :=
    hcov₁.setControl hw' fun x => by
      have h₁ := Control.claims_resume hres x
      have h₂ := Control.backing_resume hres x
      rw [h₂]
      exact Nat.add_le_add_right (Nat.add_le_add_right h₁ _) _
  rw [setControl_push] at hcov₂
  dsimp only
  rw [setControl_push]
  have hfiled : (u (v.fiberD f)).Filed y h (y.active - 1) f := by
    unfold Fiber.Filed
    rw [hphase]
    trivial
  have h₂ := ht.setControl (c := c) hg₁ hh (ha₁ ▸ hfib) (hf₁ ▸ hfs) hlat hfiled
  have hst : Staging A (some (⟨.on target f x, .none⟩, .plain)) (y.setControl c) :=
    h₂.take hp.staging (by rintro _ ⟨⟩) (by rintro ⟨⟩) ⟨rfl, rfl⟩ fun _ hfine => hf hfine
  have hback : Mode.of (.task (.driveBack h target f) :: v.thread.stack) =
      some ⟨.back target f, .none⟩ := Mode.of_cons_of hp.mode rfl
  have hland : Mode.of (.base f false :: .task (.driveBack h target f) :: v.thread.stack) =
      some ⟨.on target f .landed, .none⟩ := Mode.of_cons_of hback (if_pos rfl)
  have hbelow : (y.push [.driveBack h target f]).control.stack =
      .task (.driveBack h target f) :: v.thread.stack := by
    rw [← hstk₁]
    exact hpush
  rw [hbelow] at hcs
  refine hst.transfer hcov₂ (stack_setControl ht.seated _) ?_ ?_
  · rw [hcs, Mode.of_append, hland]
    exact Mode.upon_on target f hwalk
  · rw [hcs]
    have hrest : Item.Filed (y.setControl c) (v.active - 1)
        (.base f false :: .task (.driveBack h target f) :: v.thread.stack) :=
      ⟨⟨ho.later h₂.later, hb.later h₂.later⟩, hp.filed.later h₂.later⟩
    rw [h₂.beside.active]
    exact (hfil.later h₂.later).append hrest

theorem over_of_back {k : Greenlet}
    (hsu : (w.scene h ⟨.back r f, .none⟩ .plain).Suits A r k) (hf : k.fiber = some ⟨w.active, f⟩)
    (hfin : (w.fiberD f).finished = true) : (w.fiberD f).isOver = true := by
  obtain ⟨-, hph⟩ := (hsu.fiber _ hf).2
  simp only [scene] at hph
  cases hp : (w.fiberD f).phase <;> simp only [hp] at hph
  case ended => simp [Fiber.isOver, hp]
  case fresh => rw [hph.1] at hfin; cases hfin
  case parked => rw [hph.2.1] at hfin; cases hfin
  case active => rw [hph.2.1] at hfin; cases hfin

theorem Covered.unpost (hc : Covered hand w) (hh : h < w.hubs.size) :
    Covered (((w.hub h).outgoing.map Outgoing.tokens).getD [] ++ hand)
      (w.modifyHub h fun s => { s with runningFiber := false, outgoing := none }) := by
  refine hc.modifyHub (fun s hs k => ?_) fun hn => ?_
  · rw [hub_of_some hs]
    have hsup : Hub.supply { s with runningFiber := false, outgoing := none } h k = s.supply h k := by
      cases k <;> rfl
    rw [hsup]
    simp only [Hub.tokens, Option.map_none, Option.getD_none, List.count_append, List.count_nil]
    omega
  · rw [Array.getElem?_eq_none_iff] at hn
    exact absurd hh (Nat.not_lt.mpr hn)

theorem Sound.driveBack (hs : Sound A w)
    (hstk : w.thread.stack = .task (.driveBack h target f) :: below) :
    Sound A ((w.setStack below).driveBack h target f) := by
  obtain ⟨m₀, m, hi, hp, ho, hb⟩ := hs.poise hstk
  obtain ⟨rfl, rfl⟩ := Mode.of_step_ground hi (g := .back target f) rfl
  generalize w.setStack below = v at *
  obtain ⟨g, hg, hl, hh, hsu⟩ := hp.suits ho hb (by simp [Task.tokens]) (by rintro ⟨⟩)
  have hact : (v.hub h).thread = v.active := ho.2.trans (Nat.sub_add_cancel hp.seated.1)
  have hfib : g.fiber = some ⟨v.active, f⟩ := by
    rw [← hact]
    exact (hsu.turn f rfl).1
  have hpin := hp.staging.pinned (h := h) hg hfib
  have hposted := (hp.staging.hubs h ho.1).posted
  have ht := (Turning.start hp.staging ho).modifyHub
    (u := fun s => { s with runningFiber := false, outgoing := none })
    (fun _ => ⟨rfl, rfl, rfl, rfl⟩) fun o => { o with posted := (by simp) }
  have hcov := hp.covered.unpost ho.1
  have hover := over_of_back hsu hfib
  have hg₁ : (v.modifyHub h fun s => { s with runningFiber := false, outgoing := none }).greenlet?
    target = some g := hg
  have hstk₁ : (v.modifyHub h fun s => { s with runningFiber := false, outgoing := none
    }).thread.stack = v.thread.stack := rfl
  have hfd₁ : (v.modifyHub h fun s => { s with runningFiber := false, outgoing := none }).fiberD f =
    v.fiberD f := rfl
  unfold World.driveBack
  dsimp only
  rw [hfd₁]
  generalize (v.hub h).outgoing = out at *
  generalize (v.modifyHub h fun s => { s with runningFiber := false, outgoing := none }) = y at *
  split
  · rename_i hfin
    have hb₁ := hb.later ht.later
    have hl₁ : Later y (y.modifyGreenlet target fun g => { g with state := .dead, fiber := none }) :=
      .modifyGreenlet target fun g _ => ⟨rfl, rfl, rfl, rfl, fun _ => rfl, id⟩
    have h₁ := ht.modifyGreenlet (u := fun g => { g with state := .dead, fiber := none }) hb₁ hl₁
      fun n k hk _ => by
        have hd := ht.staging.greenlets target n k hk
        refine ⟨rfl, ⟨hd.hub, hd.thread, fun q hq => (hd.parent q hq).later hl₁, fun hm =>
          ⟨(hd.main hm).1, (hd.main hm).2.1, by simp⟩, (by simp), fun _ => rfl, fun _ => rfl,
          fun hc hm hn => ⟨rfl, (hd.ended hc hm hn).2⟩, hd.listed, (by simp)⟩,
          .inr ⟨rfl, fun q hq => ?_⟩⟩
        obtain rfl : k = g := Option.some.inj ((greenlet?_eq_some_iff.mpr ⟨n, hk⟩).symm.trans hg₁)
        rw [hfib] at hq
        cases hq
        exact hover hfin
    have h₂ := h₁.modifyHub (u := fun s => { s with stats := { s.stats with finished :=
      s.stats.finished + 1 } }) (fun _ => ⟨rfl, rfl, rfl, rfl⟩) fun o => { o with }
    have hst : Staging A (some (⟨.driving, .none⟩, .plain)) _ :=
      h₂.take hp.staging (by rintro _ ⟨⟩) (by rintro ⟨⟩) ⟨rfl, rfl⟩ fun _ hfine => hfine.retire hpin
        (.modify (fun k _ => ⟨by simp, rfl⟩) fun q k hq => by simp [hq])
    have hcov₁ : Covered (.fiber f :: ((out.map Outgoing.tokens).getD [] ++
        (Task.driveBack h target f).tokens))
        (y.modifyGreenlet target fun g => { g with state := .dead, fiber := none }) := by
      refine hcov.modifyGreenlet (fun k hk x => ?_) fun hn => by rw [hg₁] at hn; cases hn
      obtain rfl : k = g := Option.some.inj (hk.symm.trans hg₁)
      simp only [Greenlet.tokens, hfib, Option.map_some, Option.map_none, Option.getD_some,
        Option.getD_none, Pinned.tokens, List.count_append, List.count_cons, List.count_nil]
      omega
    have hcov₂ := hcov₁.modifyHub_of_eq (h := h)
      (f := fun s => { s with stats := { s.stats with finished := s.stats.finished + 1 } })
      fun _ => ⟨rfl, rfl, rfl⟩
    rw [greenlet_of_some hg₁, hfib]
    exact (hp.turn hst hcov₂ h₂.later h₂.beside.active hstk₁).go
      (l := [.dropPinned ⟨v.active, f⟩, .unshare f]) (h := h) (t := .driveFinished h target out)
      rfl rfl (by simp [Task.isFree]) h₂.mine (.inl rfl)
      ⟨h₂.mine, hb.later h₂.later, fun u p hu => (hposted u p hu).later h₂.later⟩ fun k => by
        simp [Task.tokens, List.count_cons]; omega
  · rename_i hfin
    have hst : Staging A (some (⟨.driving, .none⟩, .plain)) y :=
      ht.take hp.staging (by rintro _ ⟨⟩) (by rintro ⟨⟩) ⟨rfl, rfl⟩ fun _ hfine =>
        hfine.resume (by simpa using hfin) hpin .refl
    exact (hp.turn hst hcov ht.later ht.beside.active hstk₁).go (l := [.unshare f]) (h := h)
      (t := .driveSuspended h target out) rfl rfl (by simp [Task.isFree]) ht.mine (.inl rfl)
      ⟨ht.mine, hb.later ht.later, fun u p hu => (hposted u p hu).later ht.later⟩ fun k => by
        simp [Task.tokens, List.count_cons]; omega

theorem Sound.land {forced : Bool} (hs : Sound A w)
    (hstk : w.thread.stack = .base f forced :: below) :
    Sound A ((w.setStack below).setControl ((w.setStack below).control.land f forced)) := by
  obtain ⟨m₀, m, h₀, hi, hst, hc, hf⟩ := hs.pop_base hstk
  have hstk' := stack_setStack hs.seated below
  rw [← hstk'] at h₀
  have hf' : Item.Filed (w.setStack below) ((w.setStack below).active - 1)
    (w.setStack below).thread.stack := by rw [hstk']; exact hf
  generalize w.setStack below = v at *
  rcases Mode.of_step_base hi with ⟨rfl, r, rfl, rfl⟩ | ⟨rfl, g, r, rfl, rfl⟩
  · obtain ⟨k, g, ho, hopen, hfine, hl, hh, hfib, hsu⟩ :=
      hst.exists_seat hc h₀ hf' (r := r) (f := f) rfl rfl
    have hg := greenlet?_of_living hl
    obtain ⟨-, hact, -⟩ := Ground.places_on.mp (hsu.fiber _ hfib).2
    have ht := (Turning.start hst ho).setControl
      (u := fun s => { s.settle with phase := .ended })
      (c := v.control.land f false) hg hh hfib rfl (Fiber.later_of_active hact rfl) trivial
    have hst' : Staging A (some (⟨.back r f, .none⟩, .plain)) _ :=
      ht.take hst nofun nofun ⟨rfl, rfl⟩ fun _ hfine => hfine.land
        (hst.pinned hg hfib) (fun q hq => if_neg hq) (if_pos rfl) .refl
    have hcov : Covered [] (v.setControl (v.control.land f false)) := hc.setControl hst.seated fun x => by
      have h₁ := Control.claims_land (k := v.control) (f := f) false x
      have h₂ := Control.backing_land (k := v.control) (f := f) false x
      rw [h₂]
      exact Nat.add_le_add_right (Nat.add_le_add_right h₁ _) _
    exact hst'.transfer hcov (stack_setControl hst.seated _) h₀ (hf'.later ht.later)
  · have h₁ := hst.landed hc h₀ hf'
    rw [modifyFiber_eq hst.seated] at h₁
    exact h₁.sound

end World

end Switchyard
