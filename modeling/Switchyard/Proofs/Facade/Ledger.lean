import Switchyard.Proofs.Facade.Accounts
import Switchyard.Proofs.Facade.Confined

/-!
# The books of a hub

In a run on the facade the books of a hub are right for every stack that was started, but for those
whose release a panic has left.
-/

namespace Switchyard

open World

theorem Fiber.items_congr {s s' : Fiber Task} (h : s'.phase = s.phase) : s'.items = s.items := by
  unfold Fiber.items
  rw [h]

namespace Control

variable {c c' : Control Task} {f : FiberId} {b : Bool} {h : HubId}

theorem unwinds_destroy (hf : Item.unwinds h (c.fiberD f).items = 0) :
    Item.unwinds h (c.destroy f b).1.stack = Item.unwinds h c.stack := by
  unfold Control.destroy
  unfold Fiber.items at hf
  dsimp only
  cases hp : (c.fiberD f).phase with
  | fresh entry discard =>
    simp only [hp, List.map_append, Item.unwinds_append] at hf
    change Item.unwinds h (discard.map .task ++ c.stack) = _
    rw [Item.unwinds_append]
    omega
  | parked st =>
    simp only [hp] at hf
    dsimp only
    split
    · rfl
    · change Item.unwinds h (st ++ .base f true :: c.stack) = _
      rw [Item.unwinds_append, Item.unwinds_base, hf, Nat.zero_add]
  | _ => rfl

theorem unwinds_resume (hc : c.resume f = some c') (hf : Item.unwinds h (c.fiberD f).items = 0) :
    Item.unwinds h c'.stack = Item.unwinds h c.stack := by
  unfold Control.resume at hc
  unfold Fiber.items at hf
  split at hc
  · cases hc
  · rename_i entry discard hp
    simp only [hp, List.map_append, Item.unwinds_append] at hf
    cases hc
    change Item.unwinds h (entry.map .task ++ .base f false :: c.stack) = _
    rw [Item.unwinds_append, Item.unwinds_base]
    omega
  · rename_i st hp
    simp only [hp] at hf
    cases hc
    change Item.unwinds h (st ++ .base f false :: c.stack) = _
    rw [Item.unwinds_append, Item.unwinds_base, hf, Nat.zero_add]
  · cases hc
    rfl
  · cases hc
    rfl

theorem unwinds_suspend (hz : Item.unwinds h c.stack = 0) (hc : c.suspend = some c') :
    Item.unwinds h c'.stack = 0 := by
  unfold Control.suspend at hc
  obtain ⟨⟨above, f, forced, below⟩, hs, hk⟩ := Option.map_eq_some_iff.mp hc
  rw [(split_eq hs).1, Item.unwinds_append, Item.unwinds_base] at hz
  have hb : c'.stack = below := by
    dsimp only at hk
    split at hk <;> rw [← hk]
  rw [hb]
  omega

end Control

namespace Balanced

variable {h k : HubId} {w w' : World} {r target : Ref} {f : FiberId} {p : Payload}

theorem registerSwitch (k : HubId) (target : Ref) :
    Balanced h w (w.registerSwitch k target).2 := by
  by_cases hth : (w.greenlet target).thread = (w.hub k).thread
  · obtain ⟨v, hv, hq⟩ := registerSwitch_ok hth
    rw [hv]
    refine .after (of_quiet hq) ?_
    exact .after (modifyStats fun _ => ⟨rfl, rfl, rfl, rfl, id⟩)
      (.after (modifyGreenlet fun _ => ⟨rfl, rfl⟩) (.after (modifyGreenlet fun _ => ⟨rfl, rfl⟩)
        (.after (modifyHub fun _ => .of_eq rfl rfl rfl) (retain target))))
  · unfold World.registerSwitch
    dsimp only
    rw [if_pos (by simpa using hth)]
    exact raise _

theorem switch (k : HubId) (target : Ref) (p : Payload) :
    Balanced h w (w.switch k target p) := by
  unfold World.switch
  split
  · exact .after (push (by simp [Task.unwinds])) (raise _)
  · dsimp only
    split
    · exact .after (deliver p) (of_quiet (.write _ _))
    · split
      · unfold World.switchFromFiber
        dsimp only
        split
        · exact .after (push (by simp [Task.unwinds])) (.after (raise _) (retain target))
        · exact .after (push (by simp [Task.unwinds]))
            (.after (modifyHub fun _ => .of_eq rfl rfl rfl) (retain target))
      · exact .after (push rfl) (retain target)

theorem drive (k : HubId) (target : Ref) (p : Payload) : Balanced h w (w.drive k target p) := by
  unfold World.drive
  dsimp only
  split
  · exact .after (push (by simp [Task.unwinds])) (raise _)
  · exact .after (push rfl) (modifyHub fun _ => .of_eq rfl rfl rfl)

theorem nextLive (k : HubId) (r : Ref) : Balanced h w (w.nextLive k r).2 := by
  unfold World.nextLive
  dsimp only
  split
  · exact retain _
  · exact .after (retain _) (of_quiet (.write _ _))

theorem driveRefused (k : HubId) (target : Ref) (e : SwitchError) :
    Balanced h w (w.driveRefused k target e) :=
  .after (push rfl) (.after (retain _) (of_quiet (.write _ _)))

theorem driveKilled (k : HubId) (target : Ref) (p : Payload) :
    Balanced h w (w.driveKilled k target p) :=
  .after (push rfl) (nextLive k target)

theorem driveRegister (k : HubId) (target : Ref) (f : FiberId) :
    Balanced h w (w.driveRegister k target f) := by
  have h₁ := registerSwitch (h := h) (w := w) k target
  unfold World.driveRegister
  split
  · rename_i hr
    rw [hr] at h₁
    exact .after (push rfl) h₁
  · rename_i hr
    rw [hr] at h₁
    exact .after (push rfl) h₁

theorem driveFinished (k : HubId) (target : Ref) (out : Option Outgoing) :
    Balanced h w (w.driveFinished k target out) := by
  unfold World.driveFinished
  dsimp only
  split
  · exact .after (push rfl) (.after (nextLive k target) (of_quiet (.write _ _)))
  · exact .after (push (by simp [Task.unwinds])) (.after (nextLive k target) (of_quiet (.write _ _)))

theorem driveSuspended (k : HubId) (target : Ref) (out : Option Outgoing) :
    Balanced h w (w.driveSuspended k target out) := by
  rcases out with _ | (⟨next, p⟩ | p)
  · exact .after (push rfl) (nextLive k target)
  · exact push rfl
  · exact .after (push rfl) (nextLive k target)

theorem resumed (k : HubId) : Balanced h w (w.resumed k) :=
  .after (deliver _) (modifyGreenlet fun _ => ⟨rfl, rfl⟩)

theorem postResult (k : HubId) (f : FiberId) (p : Payload) : Balanced h w (w.postResult k f p) := by
  unfold World.postResult
  split
  · exact push (by simp)
  · exact .after (push (by simp)) (modifyHub fun _ => .of_eq rfl rfl rfl)

theorem driveTarget (hlt : k < w.hubs.size) (ht : ∀ g, w.greenlet? target = some g → g.hub = k ∧
    (g.run ≠ none → g.fiber = none)) (p : Payload) :
    Balanced h w (w.driveTarget k target p) := by
  unfold World.driveTarget
  dsimp only
  split
  · have h₁ := registerSwitch (h := h) (w := w) k target
    split
    · rename_i hr
      rw [hr] at h₁
      exact .after (push rfl) h₁
    · rename_i hr
      rw [hr] at h₁
      exact .after (push (by simp [Task.unwinds])) h₁
  · split
    · exact .after (push (by simp [Task.unwinds]))
        (.after (modifyGreenlet fun _ => ⟨rfl, rfl⟩) (of_quiet (.write _ _)))
    · split
      · exact .after (push (by simp [Task.unwinds]))
          (.after (modifyGreenlet fun _ => ⟨rfl, rfl⟩) (setControl rfl))
      · rename_i run args _ hrun _
        obtain ⟨g, hg⟩ : ∃ g, w.greenlet? target = some g := by
          cases hg : w.greenlet? target with
          | none =>
            rw [greenlet_of_none hg] at hrun
            cases hrun
          | some g => exact ⟨g, rfl⟩
        obtain ⟨hk, hf⟩ := ht g hg
        rw [greenlet_of_some hg] at hrun
        refine .after (push rfl) (count (a := 0) (b := 1) rfl hlt ?_
          fun s => ⟨by dsimp only; omega, rfl, rfl⟩)
        have hs := stackCount_gain (w := w.setControl ((w.control.create
          [.runBody run args, .entry k w.fibers.size]
          (Task.dropRun run ++ Task.dropArgs args)).2.share w.fibers.size)) (h := h) hg
          (u := fun g => { g with run := none, fiber := some ⟨w.active, w.fibers.size⟩ })
          (hf (by simp [hrun])) hk rfl
        have hu : (w.setControl ((w.control.create [.runBody run args, .entry k w.fibers.size]
          (Task.dropRun run ++ Task.dropArgs args)).2.share w.fibers.size)).unwindCount h =
            w.unwindCount h := unwindCount_modifyThread_eq rfl
        rw [ite_self, Nat.add_zero, Nat.add_right_comm, ← hu]
        exact congrArg (· + _) hs
      · exact .after (push (by simp [Task.unwinds])) (modifyGreenlet fun _ => ⟨rfl, rfl⟩)

theorem driveResume (k : HubId) (target : Ref) (hf : Item.unwinds h (w.fiberD f).items = 0) :
    Balanced h w (w.driveResume k target f) := by
  have h₁ : Balanced h w ((w.modifyHub k fun s => { s with runningFiber := true }).push
      [.driveBack k target f]) := .after (push rfl) (modifyHub fun _ => .of_eq rfl rfl rfl)
  unfold World.driveResume
  dsimp only
  split
  · rename_i hr
    exact .after (setControl (Control.unwinds_resume hr hf)) h₁
  · exact .after (fail _) h₁

theorem driveBack (hlt : k < w.hubs.size) (hf : ∃ g, w.greenlet? target = some g ∧ g.hub = k ∧
    g.fiber.isSome = true) (f : FiberId) : Balanced h w (w.driveBack k target f) := by
  have h₁ : Balanced h w (w.modifyHub k fun s => { s with runningFiber := false, outgoing := none }) :=
    modifyHub fun _ => .of_eq rfl rfl rfl
  obtain ⟨g, hg, hk, hsome⟩ := hf
  unfold World.driveBack
  dsimp only
  split
  · refine .after (push ?_) (h₁.trans (count (a := 1) (b := 0) rfl (by rwa [size_modifyHub]) ?_
      fun s => ⟨by dsimp only; omega, rfl, rfl⟩))
    · rw [List.map_append, Item.unwinds_append]
      cases World.greenlet _ target |>.fiber <;> rfl
    · rw [ite_self, Nat.add_zero, Nat.add_right_comm]
      exact congrArg (· + _) (stackCount_loss (h := h) (w := w.modifyHub k _) hg hk hsome rfl)
  · exact .after (push rfl) h₁

theorem suspend (hw : w.Seated) (k : HubId) (f : FiberId) (hz : Item.unwinds h w.thread.stack = 0) :
    Balanced h w (w.suspend k f) := by
  unfold World.suspend
  split
  · split
    · rename_i c hc
      have hz' : Item.unwinds h (w.push [.resumed k]).thread.stack = 0 := by
        rw [stack_push hw, Item.unwinds_append, hz]
        rfl
      exact setControl ((Control.unwinds_suspend hz' hc).trans hz.symm)
    · exact fail _
  · exact .after (push (by simp [Task.unwinds])) (modifyHub fun _ => .of_eq rfl rfl rfl)

theorem unwind (hf : Item.unwinds h (w.fiberD f).items = 0) : Balanced h w (w.unwind f) := by
  unfold World.unwind
  dsimp only
  have h₁ : Balanced h w (w.modifyFiber f fun s => { s with cancelling := true }) :=
    of_eq rfl rfl rfl
  split
  · exact .after (of_quiet (.write _ _)) h₁
  · refine .after (takeControl (Control.unwinds_destroy ?_)) (.after (push rfl) h₁)
    have hp := Control.phase_modify w.control f f (fun s => { s with cancelling := true })
      fun _ => rfl
    exact (congrArg (Item.unwinds h) (Fiber.items_congr hp)).trans hf

theorem beginning {g : Greenlet} (hw : w.Seated) (hg : w.greenlet? r = some g) (hk : g.hub = k)
    (hf : g.fiber.isSome = true) {ts : List Task}
    (ht : Item.unwinds h (ts.map .task) = if k = h then 1 else 0) :
    Balanced h w (((w.modifyGreenlet r fun g => { g with state := .dead, fiber := none }).modifyHub
      k fun s => { s with releasing := true }).push ts) := by
  have h₁ : Balanced h w (w.modifyHub k fun s => { s with releasing := true }) :=
    modifyHub fun _ => .of_eq rfl rfl rfl
  refine h₁.trans (of_total rfl ?_)
  have hs := stackCount_loss (h := h) hg hk hf
    (u := fun g => { g with state := .dead, fiber := none }) rfl
  have hu := unwindCount_modifyThread (h := h) hw fun t =>
    { t with stack := ts.map .task ++ t.stack }
  rw [Item.unwinds_append, ht] at hu
  change (w.modifyGreenlet r fun g => { g with state := .dead, fiber := none }).stackCount h +
    (w.modifyThread fun t => { t with stack := ts.map .task ++ t.stack }).unwindCount h =
      w.stackCount h + w.unwindCount h
  omega

theorem release (hw : w.Seated) (hr : ∀ g, w.greenlet? r = some g → g.hub = k)
    (hf : ∀ f, (w.greenlet r).fiber.bind (·.get? w.active) = some f →
      Item.unwinds h (w.fiberD f).items = 0) : Balanced h w (w.release k r) := by
  unfold World.release
  dsimp only
  cases hfib : (w.greenlet r).fiber with
  | none =>
    refine .after (push rfl) (of_hub rfl (stackCount_modifyGreenlet_eq fun g hg => ?_) rfl)
    rw [greenlet_of_some hg] at hfib
    rw [Greenlet.stackOf_of_none rfl, Greenlet.stackOf_of_none hfib]
  | some p =>
    obtain ⟨g, hg⟩ : ∃ g, w.greenlet? r = some g := by
      cases hg : w.greenlet? r with
      | none =>
        rw [greenlet_of_none hg] at hfib
        cases hfib
      | some g => exact ⟨g, rfl⟩
    have hsome : g.fiber.isSome = true := by
      rw [← greenlet_of_some hg, hfib]
      rfl
    dsimp only
    split
    · exact beginning hw hg (hr g hg) hsome (by simp [Task.unwinds])
    · rename_i f hget
      have ht : Item.unwinds h ([.unshare f, .released k r].map .task) = if k = h then 1 else 0 := by
        simp [Task.unwinds]
      refine .after (unwind (hf f ?_)) (.after (of_quiet (.write _ _))
        (beginning hw hg (hr g hg) hsome ht))
      rw [hfib]
      exact hget

theorem released (hw : w.Seated) (hlt : k < w.hubs.size) {below : List (Item Task)}
    (hs : w.thread.stack = .task (.released k r) :: below) :
    Balanced h w ((w.setStack below).released k r) := by
  have hu := unwindCount_modifyThread (h := h) hw fun t => { t with stack := below }
  rw [hs, Item.unwinds_task] at hu
  have h₁ : Balanced h w (w.modifyHub k fun s => { s with releasing := false, outgoing := none }) :=
    modifyHub fun _ => .of_eq rfl rfl rfl
  have h₂ : Balanced h (w.modifyHub k fun s => { s with releasing := false, outgoing := none })
      (((w.setStack below).modifyHub k fun s =>
        { s with releasing := false, outgoing := none }).modifyStats k fun s =>
          { s with released := s.released + 1 }) := by
    refine count (a := 1) (b := 0) rfl (by rwa [size_modifyHub]) ?_
      fun s => ⟨by dsimp only; omega, rfl, rfl⟩
    change w.stackCount h + (w.modifyThread fun t => { t with stack := below }).unwindCount h +
      _ = w.stackCount h + w.unwindCount h + _
    simp only [Task.unwinds, beq_iff_eq] at hu
    rw [ite_self]
    omega
  exact .after (push (by simp [Task.unwinds])) (h₁.trans h₂)

theorem pop {i : Item Task} {below : List (Item Task)}
    (hs : w.thread.stack = i :: below)
    (hi : Item.unwinds h below = Item.unwinds h (i :: below)) :
    Balanced h w (w.setStack below) :=
  modifyThread (by rw [hs]; exact hi)

theorem pass (u t : Task) (ht : t.unwinds h = false) : Balanced h w (w.pass u t) :=
  push (by simp [ht])

theorem answer (hw : w.Seated) (outcome : Except SwitchError (Args Obj)) (u : Task) :
    Balanced h w (World.answer outcome u w) := by
  cases u with
  | switched name target catches => exact effect (.switched (.inl trivial) name target catches outcome)
  | rally r => exact effect (.rallyAnswered hw r outcome)
  | _ => exact pass _ _ rfl

theorem endFrame (f : Frame) (flow : Flow) : Balanced h w (w.endFrame f flow) := by
  refine push ?_
  rw [List.map_append, Item.unwinds_append, Item.unwinds_free (Task.all_isFree_dropLocals _)]
  rfl

theorem leave (flow : Flow) (u : Task) : Balanced h w (World.leave flow u w) := by
  unfold World.leave
  split
  · split
    · exact .after (endFrame _ _) (of_quiet (.event _ _))
    · exact endFrame _ _
  · exact of_quiet (.event _ _)
  · exact push (by simp [Task.unwinds])
  · exact pass _ _ rfl

theorem hand (last : Args Obj) (flow : Flow) (u : Task) :
    Balanced h w (World.hand last flow u w) := by
  cases u with
  | nestEnd how => exact effect (.nestEnd (.inl trivial) how last flow)
  | bodyEnd | rootEnd => exact push (by simp [Task.unwinds])
  | _ => exact pass _ _ rfl

theorem result (p : Payload) (u : Task) : Balanced h w (World.result p u w) := by
  cases u with
  | entry k f => exact postResult k f p
  | _ => exact pass _ _ rfl

theorem failTask (p : Panic) (u : Task) : Balanced h w (World.failTask p u w) := by
  have hcalm : Balanced h w w.calm := of_quiet .calm
  unfold World.failTask
  split
  · dsimp only
    have hnote (name : String) (ds : List Datum) : Balanced h w (w.calm.note name ds) :=
      .after (of_quiet (.event _ _)) hcalm
    split
    · exact .after (fail p) (hnote _ _)
    · exact hnote _ _
  · exact .after (of_quiet (.event _ _)) hcalm
  · split
    · exact push rfl
    · exact .after (postResult _ _ _) hcalm
  · exact .after exitThread (.after (modifyThread rfl) hcalm)
  · exact pass _ _ rfl

theorem land (f : FiberId) (forced : Bool) : Balanced h w (w.setControl (w.control.land f forced)) :=
  setControl rfl

theorem failBase (p : Panic) (f : FiberId) (forced : Bool) :
    Balanced h w (World.failBase p f forced w) := by
  unfold World.failBase
  dsimp only
  split
  · exact .after (of_quiet .calm) (land f forced)
  · exact .after (push rfl) (land f forced)

end Balanced

namespace World

variable {A : Prop} {w w' w₀ : World} {h k : HubId} {r target : Ref} {f : FiberId} {m : Mode}
  {e : Edge} {t : Task} {below : List (Item Task)} {hand : List Token} {tr : List World}

theorem Staging.unwinds_items {x : Option (Mode × Edge)} (hs : Staging A x w) {g : Greenlet}
    {p : Pinned FiberId} (hg : w.greenlet? r = some g) (hf : g.fiber = some p)
    (hsu : (w.scene g.hub m e).Suits A r g) : Item.unwinds h (w.fiberD p.value).items = 0 := by
  obtain ⟨-, -, hplace⟩ := hsu.fiber p hf
  obtain ⟨n, -, hd⟩ := hs.decent hg
  have hfile := (hd.saved p hf).2
  unfold Fiber.Filed at hfile
  unfold Fiber.items
  cases hp : (w.fiberD p.value).phase with
  | fresh entry discard =>
    simp only [hp] at hfile
    obtain ⟨⟨run, args, rfl⟩, hdis, -⟩ := hfile
    dsimp only
    rw [List.map_append, Item.unwinds_append, Item.unwinds_plain hdis]
    rfl
  | parked st =>
    rw [show ((w.scene g.hub m e).fiberD p.value).phase = .parked st from hp] at hplace
    exact Item.unwinds_of_walk st hplace.2.2.2
  | _ => rfl

theorem Poised.unwinds_items {m₀ : Mode} (hp : Poised A hand m₀ m e w)
    (ho : w.Owned k (w.active - 1)) (hr : .object r ∈ hand) {g : Greenlet}
    (hg : w.greenlet? r = some g) (hk : g.hub = k) {p : Pinned FiberId} (hf : g.fiber = some p) :
    Item.unwinds h (w.fiberD p.value).items = 0 := by
  subst hk
  obtain ⟨n, hob, hd⟩ := hp.staging.decent hg
  have hopen : (w.hub g.hub).closed = false := by
    by_contra hcl
    rw [hd.shut (by simpa using hcl)] at hf
    cases hf
  obtain ⟨o, ho', hpos⟩ := hp.covered.object?_of_mem hr
  have hliv : w.living? r = some g := living?_eq_some_iff.mpr ⟨n, by
    rw [hob] at ho'; cases ho'; exact hpos, hob⟩
  have hst := hp.staging.staged g.hub ho.1 m e (by rw [Shows, if_pos (hp.thread_eq ho)])
  exact hp.staging.unwinds_items hg hf ((hst.fine hopen).suits r g hliv rfl)

theorem Staging.balanced_unshare {x : Option (Mode × Edge)} (hs : Staging A x w)
    (hc : Covered (.fiber f :: hand) w) : Balanced h w (w.unshare f) := by
  obtain ⟨hflag, -⟩ := hs.unshare_eq hc
  obtain ⟨-, -, -, -, ht⟩ := hs.unshare hc
  have he : w.unshare f = w.setControl (w.control.unshare f w.isPanicking).1 := by
    unfold World.unshare World.takeControl
    rw [hflag, if_neg (by simp)]
  rw [he] at ht
  refine Balanced.takeControl ?_
  rw [← stack_setControl hs.seated, ht]

theorem Staging.fiber_of_grave {x : Option (Mode × Edge)} (hs : Staging A x w)
    (hc : Covered (.grave r :: hand) w) {g : Greenlet} (hg : w.greenlet? r = some g) :
    g.fiber = none := by
  obtain ⟨n, ho, hd⟩ := hs.decent hg
  exact hd.buried (hc.count_of_grave (List.mem_cons_self ..) ho)

theorem Sound.suits_target (hs : Sound A w) (hstk : w.thread.stack = .task t :: below) {g : Ground}
    (hg : t.role.ground? = some g) (hne : g ≠ .idle) (ht : .object target ∈ t.tokens)
    (ho : (w.setStack below).Owned k ((w.setStack below).active - 1))
    (hb : (w.setStack below).Belongs target k) : ∃ k', (w.setStack below).greenlet? target = some k' ∧
      k'.hub = k ∧ ((w.setStack below).scene k ⟨g, .none⟩ (Item.edge (.task t :: below))).Suits A
        target k' := by
  obtain ⟨m₀, m, hi, hp, -⟩ := hs.poise hstk
  obtain ⟨rfl, rfl⟩ := Mode.of_step_ground hi hg
  obtain ⟨g', hg', -, hh, hsu⟩ := hp.suits ho hb ht fun he => hne (Mode.mk.inj he).1
  exact ⟨g', hg', hh, hsu⟩

theorem Sound.balanced_runTask (hs : Sound A w) (hstk : w.thread.stack = .task t :: below)
    (hf : w.OnFacade) (hσ : t.isSignal = false) :
    Balanced h w ((w.setStack below).runTask t) := by
  by_cases hr : ∃ k r, t = .released k r
  · obtain ⟨k, r, rfl⟩ := hr
    obtain ⟨m₀, m, -, -, ho, -⟩ := hs.poise hstk
    exact Balanced.released hs.seated ho.1 hstk
  refine (Balanced.pop hstk ?_).trans ?_
  · rw [Item.unwinds_task]
    cases t <;> first | rfl | exact absurd ⟨_, _, rfl⟩ hr
  by_cases hscript : t.isScript = true
  · exact .effect (.runTask ((seated_modifyThread _).mpr hs.seated) hscript
      (Licence.grants_full _ _))
  cases t with
  | drop r =>
    obtain ⟨m, -, h₁, -⟩ := hs.pop_code hstk rfl
    refine Balanced.drop r fun g hg hfib => ?_
    obtain ⟨n, -, hd⟩ := h₁.staging.decent hg
    refine h₁.staging.lives h₁.covered hd.hub ?_
    by_contra hcl
    exact hfib (hd.shut (by simpa using hcl))
  | dropPinned p =>
    obtain ⟨m, -, h₁, -⟩ := hs.pop_code hstk rfl
    unfold World.runTask World.dropPinned
    dsimp only
    split
    · rename_i f hp
      obtain ⟨-, rfl⟩ := Pinned.get?_eq_some_iff.mp hp
      exact h₁.staging.balanced_unshare h₁.covered
    · exact .refl _
  | destroy r =>
    obtain ⟨m, -, h₁, -⟩ := hs.pop_code hstk rfl
    exact Balanced.destroy r fun g hg => h₁.staging.fiber_of_grave h₁.covered hg
  | reclaim r =>
    obtain ⟨m, -, h₁, -⟩ := hs.pop_code hstk rfl
    exact Balanced.reclaim r fun g hg => h₁.staging.fiber_of_grave h₁.covered hg
  | unlock => exact .of_eq rfl rfl rfl
  | unshare f =>
    obtain ⟨m, -, h₁, -⟩ := hs.pop_code hstk rfl
    exact h₁.staging.balanced_unshare h₁.covered
  | settle f => exact .of_eq rfl rfl rfl
  | leaveHub k => exact .leaveHub k
  | dropHubFields k =>
    obtain ⟨-, hsh⟩ := hs.poise_closing hstk rfl
    exact .dropHubFields k hsh.2
  | release k r =>
    obtain ⟨m₀, m, hi, hp, ho, hsp, -⟩ := hs.poise hstk
    have hk (g : Greenlet) (hg : (w.setStack below).greenlet? r = some g) : g.hub = k := by
      obtain ⟨n, hob⟩ := greenlet?_eq_some_iff.mp hg
      obtain ⟨g', hv, hk, -⟩ := hsp.2 _ hob
      cases hv
      exact hk
    refine .release hp.seated hk fun f hfib => ?_
    obtain ⟨p, hp', hget⟩ := Option.bind_eq_some_iff.mp hfib
    obtain ⟨-, rfl⟩ := Pinned.get?_eq_some_iff.mp hget
    cases hg : (w.setStack below).greenlet? r with
    | none =>
      rw [greenlet_of_none hg] at hp'
      cases hp'
    | some g =>
      rw [greenlet_of_some hg] at hp'
      exact hp.unwinds_items ho (by simp [Task.tokens]) hg (hk g hg) hp'
  | released k r => exact absurd ⟨k, r, rfl⟩ hr
  | drain k => exact .drain k
  | teardown k =>
    obtain ⟨hp, hsh⟩ := hs.poise_closing hstk rfl
    have hlt : k < (w.setStack below).hubs.size := by
      rcases hsh with hsh | ⟨ho, -⟩
      · exact hsh.1.1
      · exact ho.1
    refine .teardown hlt fun q hq g hg => ?_
    obtain ⟨n, ho⟩ := greenlet?_eq_some_iff.mp hg
    obtain ⟨g', hg', hk⟩ := ((hp.staging.hubs k hlt).nodes q hq).greenlet? ho
    rw [Option.some.inj (hg.symm.trans hg'), hk]
  | teardownQueues k n =>
    obtain ⟨-, hsh, -⟩ := hs.poise_closing hstk rfl
    exact .teardownQueues k n hsh.2
  | teardownCurrent k n => exact .teardownCurrent k n
  | teardownEnd k main n => exact .teardownEnd k main n
  | switch k target p => exact .switch k target p
  | suspend k f =>
    obtain ⟨m₀, m, hi, hp, -⟩ := hs.poise hstk
    obtain ⟨r, rfl, -⟩ := Mode.of_step_suspend hi rfl
    refine .suspend hp.seated k f ?_
    by_contra hn
    exact (Mode.unwinds_le hp.mode).2 (Nat.pos_of_ne_zero hn) rfl
  | resumed k => exact .resumed k
  | drive k target p => exact .drive k target p
  | driveTarget k target p =>
    obtain ⟨-, -, -, -, ho, hb⟩ := hs.poise hstk
    obtain ⟨g, hg, hk, hsu⟩ := hs.suits_target hstk rfl (by simp) (List.mem_cons_self ..) ho hb
    refine .driveTarget ho.1 (fun g' hg' => ?_) p
    obtain rfl : g = g' := Option.some.inj (hg.symm.trans hg')
    exact ⟨hk, fun hrun => (hsu.run hrun).2⟩
  | driveKilled k target p => exact .driveKilled k target p
  | driveRefused k target e => exact .driveRefused k target e
  | driveRegister k target f => exact .driveRegister k target f
  | driveResume k target f =>
    obtain ⟨-, -, -, -, ho, hb⟩ := hs.poise hstk
    obtain ⟨g, hg, rfl, hsu⟩ := hs.suits_target hstk rfl (by simp) (List.mem_cons_self ..) ho hb
    obtain ⟨m₀, m, -, hp, -⟩ := hs.poise hstk
    exact .driveResume _ target (hp.staging.unwinds_items hg (hsu.turn f rfl).1 hsu)
  | driveBack k target f =>
    obtain ⟨-, -, -, -, ho, hb⟩ := hs.poise hstk
    obtain ⟨g, hg, hk, hsu⟩ := hs.suits_target hstk rfl (by simp) (List.mem_cons_self ..) ho hb
    refine .driveBack ho.1 ⟨g, hg, hk, ?_⟩ f
    rw [(hsu.turn f rfl).1]
    rfl
  | driveFinished k target out => exact .driveFinished k target out
  | driveSuspended k target out => exact .driveSuspended k target out
  | driveMain k target p => exact .push rfl
  | endDriving k => exact .modifyHub fun _ => .of_eq rfl rfl rfl
  | entry => exact .refl _
  | steps rest =>
    cases rest with
    | nil => exact absurd rfl hscript
    | cons st rest => exact absurd (hf st rest below hstk) hscript
  | endHubs => exact .endHubs
  | exitThread => exact .exitThread
  | exitSlots => exact .exitSlots
  | answer | leave | hand | result | fail => cases hσ
  | _ => exact absurd rfl hscript

/-- A panic is about to leave the release of a stack of the hub `h`. -/
def leavesRelease (w : World) (h : HubId) : Bool :=
  match w.thread.stack with
  | .task (.fail _) :: .task t :: _ => t.unwinds h
  | _ => false

theorem Stands.unwinds_of_signal {c : Context} (hs : w.Stands c) {σ : Task}
    (hσ : σ.isSignal = true) (hne : ∀ p, σ ≠ .fail p)
    (hstk : w.thread.stack = .task σ :: .task t :: below) : t.unwinds h = false := by
  obtain ⟨c₁, hb, hi⟩ := Context.of_cons (hstk ▸ hs.context)
  obtain ⟨c₂, -, ht⟩ := Context.of_cons hb
  have hfloor : c₁ ≠ .floor := by
    rintro rfl
    cases σ with
    | fail p => exact hne p rfl
    | answer | leave | hand | result =>
      simp [Context.item, Context.task, Context.guard, Context.isEnd] at hi
    | _ => cases hσ
  cases t with
  | released k r => exact absurd (Option.some.inj ht).symm hfloor
  | _ => rfl

theorem Stands.balanced_signal {c : Context} (hs : w.Stands c) {σ : Task}
    (hσ : σ.isSignal = true) (hne : ∀ p, σ ≠ .fail p) (hstk : w.thread.stack = .task σ :: below)
    {run : Task → World → World}
    (hr : ∀ (v : World) u, v.Seated → Balanced h v (run u v)) :
    Balanced h w ((w.setStack below).signal run) := by
  have hu : σ.unwinds h = false := by cases σ <;> first | rfl | cases hσ
  have h₁ : Balanced h w (w.setStack below) := .pop hstk (by simp [hu])
  refine h₁.trans ?_
  cases below with
  | nil =>
    rw [World.signal, stack_setStack hs.seated]
    exact .refl _
  | cons x rest =>
    cases x with
    | task u =>
      rw [signal_eq hs.seated]
      refine (Balanced.pop (stack_setStack hs.seated _) ?_).trans
        (hr _ u ((seated_modifyThread _).mpr ((seated_modifyThread _).mpr hs.seated)))
      simp [hs.unwinds_of_signal (h := h) hσ hne hstk]
    | base f forced =>
      rw [World.signal, stack_setStack hs.seated]
      exact .refl _

theorem balanced_fault (hw : w.Seated) {p : Panic} (hstk : w.thread.stack = .task (.fail p) :: below)
    (hl : w.leavesRelease h = false) : Balanced h w ((w.setStack below).fault p) := by
  refine (Balanced.pop hstk (by simp [Task.unwinds])).trans ?_
  have hst := stack_setStack hw below
  unfold World.fault
  rw [hst]
  cases below with
  | nil => exact .refl _
  | cons x rest =>
    cases x with
    | task t =>
      have ht : t.unwinds h = false := by
        rw [leavesRelease, hstk] at hl
        exact hl
      exact (Balanced.pop hst (by simp [ht])).trans (.failTask p t)
    | base f forced => exact (Balanced.pop hst (by simp)).trans (.failBase p f forced)

/-- A step loses sight of no stack, unless a panic leaves its release. -/
theorem Sound.balanced_next {c : Context} (hs : Sound A w) (hc : w.Stands c) (hf : w.OnFacade)
    (hl : w.leavesRelease h = false) : Balanced h w w.next := by
  unfold World.next
  split
  · exact .of_eq rfl rfl rfl
  · rename_i f forced below hstk
    exact (Balanced.pop hstk (by simp)).trans (.land f forced)
  · rename_i t below hstk
    by_cases hσ : t.isSignal = true
    · cases t with
      | answer outcome =>
        exact hc.balanced_signal hσ nofun hstk fun v u hv => .answer hv outcome u
      | leave flow => exact hc.balanced_signal hσ nofun hstk fun v u _ => .leave flow u
      | hand last flow => exact hc.balanced_signal hσ nofun hstk fun v u _ => .hand last flow u
      | result p => exact hc.balanced_signal hσ nofun hstk fun v u _ => .result p u
      | fail p => exact balanced_fault hs.seated hstk hl
      | _ => cases hσ
    · exact hs.balanced_runTask hstk hf (by simpa using hσ)

theorem books_of_leaving (hw : w.Seated) (hl : w.leavesRelease h = true) :
    (w.next.hub h).stats.started + w.accounted h =
      (w.hub h).stats.started + (w.next.accounted h + 1) ∧
    ((w.hub h).Drains → (w.next.hub h).Drains) := by
  obtain ⟨p, t, below, hstk, ht⟩ : ∃ p t below,
      w.thread.stack = .task (.fail p) :: .task t :: below ∧ t.unwinds h = true := by
    unfold leavesRelease at hl
    split at hl
    · exact ⟨_, _, _, ‹_›, hl⟩
    · cases hl
  obtain ⟨k, r, rfl⟩ : ∃ k r, t = .released k r := by
    cases t <;> first | exact ⟨_, _, rfl⟩ | cases ht
  obtain rfl : k = h := by simpa [Task.unwinds] using ht
  have hnext : w.next = ((w.setStack (.task (.released k r) :: below)).setStack below).push
      [.drop r, .fail p] := by
    unfold World.next
    rw [hstk]
    dsimp only
    unfold World.runTask World.fault
    dsimp only
    rw [stack_setStack hw]
    rfl
  have hu := unwindCount_modifyThread (h := k) hw fun t => { t with stack := below }
  rw [hstk] at hu
  simp only [Item.unwinds_task, Task.unwinds, beq_self_eq_true, if_true, Bool.false_eq_true,
    if_false] at hu
  have hb : Balanced k (w.setStack below) w.next := by
    rw [hnext, Still.setStack_setStack]
    exact .push rfl
  refine ⟨?_, hb.queue⟩
  have hbooks := hb.books
  have hhub : (w.setStack below).hub k = w.hub k := rfl
  have hacc : w.accounted k = (w.setStack below).accounted k + 1 := by
    change _ + w.stackCount k + w.unwindCount k =
      _ + w.stackCount k + (w.modifyThread fun t => { t with stack := below }).unwindCount k + 1
    rw [hhub]
    omega
  rw [hhub] at hbooks
  omega

theorem owned_of_unwinds {i : Nat} {s : List (Item Task)} (hf : Item.Filed w i s)
    (hp : 0 < Item.unwinds h s) : w.Owned h i := by
  induction s with
  | nil => exact absurd hp (Nat.lt_irrefl 0)
  | cons x s ih =>
    cases x with
    | base f forced => exact ih hf (by simpa using hp)
    | task t =>
      by_cases ht : t.unwinds h = true
      · obtain ⟨k, r, rfl⟩ : ∃ k r, t = .released k r := by
          cases t <;> first | exact ⟨_, _, rfl⟩ | cases ht
        obtain rfl : k = h := by simpa [Task.unwinds] using ht
        exact hf.1.1
      · exact ih hf.2 (by simpa [ht] using hp)

theorem Sound.filed_stackAt (hs : Sound A w) (i : Nat) : Item.Filed w i (w.stackAt i) := by
  obtain ⟨⟨m, hm, hst⟩, -, hf⟩ := hs
  by_cases hi : i = w.active - 1
  · subst hi
    rwa [stack_eq_stackAt] at hf
  · exact (hst.elsewhere i hi).2

/-- One stack of a hub is released at a time, and only as long as the hub is open. -/
theorem Sound.unwindCount_le (hs : Sound A w) : w.unwindCount h ≤ 1 ∧
    (0 < w.unwindCount h → (w.hub h).closed = false ∧ (w.hub h).releasing = true) := by
  by_cases hz : w.unwindCount h = 0
  · rw [hz]
    exact ⟨Nat.zero_le 1, fun hp => absurd hp (Nat.lt_irrefl 0)⟩
  obtain ⟨i, t, hi, hpos⟩ := exists_of_total_pos _ (Nat.pos_of_ne_zero hz)
  have hat {j : Nat} {u : Thread} (hj : w.threads[j]? = some u) : w.stackAt j = u.stack := by
    simp [stackAt, hj]
  have howner {j : Nat} {u : Thread} (hj : w.threads[j]? = some u)
      (hp : 0 < Item.unwinds h u.stack) : w.Owned h j := by
    refine owned_of_unwinds ?_ hp
    rw [← hat hj]
    exact hs.filed_stackAt j
  have ho := howner hi hpos
  have htotal : w.unwindCount h = Item.unwinds h t.stack :=
    total_of_single (fun t : Thread => Item.unwinds h t.stack) hi fun j u hj hne => by
      by_contra hn
      have hj' := howner hj (Nat.pos_of_ne_zero hn)
      exact hne (Nat.succ.inj (hj'.2.symm.trans ho.2))
  obtain ⟨m, hm, -, hst⟩ := hs.place ho
  rw [hat hi] at hm
  obtain ⟨hle, hu⟩ := Mode.unwinds_le (h := h) hm
  have hopen : (w.hub h).closed = false := by
    by_contra hcl
    exact hu hpos (hst.shut (by simpa using hcl) ▸ rfl)
  exact ⟨htotal ▸ hle, fun _ => ⟨hopen, (hst.fine hopen).releasing (hu hpos)⟩⟩

/-- The books of a hub account for all stacks but those whose release a panic has left. -/
theorem Run.books (hs : w₀.Starts) (hr : Run w₀ tr w) (hf : ∀ v ∈ tr, v.OnFacade) :
    (w.hub h).stats.started = w.accounted h + tr.countP (·.leavesRelease h) ∧
      (w.hub h).Drains := by
  induction hr with
  | start =>
    obtain ⟨-, hheap, hhubs, -⟩ := hs.bare
    have hhub : w₀.hub h = ⟨0, 0, 0, false, false, false, none, [], [], [], {}, true, true, 0⟩ := by
      simp [World.hub, hhubs]
    have hu : w₀.unwindCount h = 0 := by
      by_contra hn
      have hopen := (hs.sound.unwindCount_le.2 (Nat.pos_of_ne_zero hn)).1
      rw [hhub] at hopen
      cases hopen
    rw [accounted, Hub.Drains, hu, stackCount, hheap, hhub]
    exact ⟨rfl, (by simp)⟩
  | @step tr v hr hw ih =>
    have hf' : ∀ u ∈ tr, u.OnFacade := fun u hu => hf u (List.mem_cons_of_mem _ hu)
    obtain ⟨hbooks, hdrains⟩ := ih hf'
    have hv := hr.sound hs hf'
    rw [List.countP_cons]
    by_cases hl : v.leavesRelease h = true
    · obtain ⟨hstep, hqueue⟩ := books_of_leaving hv.seated hl
      refine ⟨?_, hqueue hdrains⟩
      rw [if_pos hl]
      omega
    · obtain ⟨c, hc⟩ := hr.stands hs
      obtain ⟨hstep, hqueue⟩ :=
        hv.balanced_next (h := h) hc (hf v List.mem_cons_self) (by simpa using hl)
      refine ⟨?_, hqueue hdrains⟩
      rw [if_neg hl]
      omega
  | yield hr _ _ ih => exact ih hf

/-- Of every stack that a hub has started it is known what has become of it: it has finished, was
released or abandoned, is still there, or is being released, unless a panic has left its release.
What the hub has put on its list is what was taken off it, with what is still on it. -/
theorem Run.ledger (hs : w₀.Starts) (hr : Run w₀ tr w) (hf : ∀ v ∈ tr, v.OnFacade) (h : HubId) :
    (w.hub h).stats.started = (w.hub h).stats.finished + (w.hub h).stats.released +
        (w.hub h).stats.abandoned + w.stackCount h + w.unwindCount h +
        tr.countP (·.leavesRelease h) ∧
      w.unwindCount h ≤ 1 ∧
      (0 < w.unwindCount h → (w.hub h).closed = false ∧ (w.hub h).releasing = true) ∧
      ((w.hub h).closed = false →
        (w.hub h).stats.deferred = (w.hub h).stats.drained + (w.hub h).deferred.length) := by
  obtain ⟨hle, hrel⟩ := (hr.sound hs hf).unwindCount_le (h := h)
  obtain ⟨hbooks, hdrains⟩ := hr.books (h := h) hs hf
  exact ⟨hbooks, hle, hrel, hdrains⟩

/-- A suspended greenlet is dropped. It catches the panic that unwinds it and panics anew, so its
release comes to no end. -/
def reraising : World :=
  Script.start .empty
    [("p", [.nest (.attemptPanic false) [.switch "@main" (.built [] []) none none],
        .panic "again" .text])]
    [.create "p" "p" [] [] none none, .switch "p" (.built [] []) none none,
      .nest (.attemptPanic false) [.drop "p"]] 500

theorem Run.ledger_reraising : ∃ tr, Run reraising tr (reraising.run 101) ∧
    ((reraising.run 101).hub 0).stats.started = ((reraising.run 101).hub 0).stats.finished +
        ((reraising.run 101).hub 0).stats.released + ((reraising.run 101).hub 0).stats.abandoned +
        (reraising.run 101).stackCount 0 + (reraising.run 101).unwindCount 0 +
        tr.countP (·.leavesRelease 0) ∧
      tr.countP (·.leavesRelease 0) = 1 := by
  obtain ⟨tr, hr, hf⟩ := (@Run.start reraising).run_all (p := World.OnFacade) (n := 101)
    (by decide +kernel)
  rw [List.append_nil] at hr
  have hl := (Run.ledger (.script ..) hr hf 0).1
  have hs : ((reraising.run 101).hub 0).stats.started = 1 := by decide +kernel
  have hz : ((reraising.run 101).hub 0).stats.finished +
      ((reraising.run 101).hub 0).stats.released + ((reraising.run 101).hub 0).stats.abandoned +
      (reraising.run 101).stackCount 0 + (reraising.run 101).unwindCount 0 = 0 := by decide +kernel
  exact ⟨tr, hr, hl, by omega⟩

end World

end Switchyard
