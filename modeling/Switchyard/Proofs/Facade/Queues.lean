import Switchyard.Proofs.Facade.Confined

/-!
# What happens to the queues of a hub

Greenlets that wait for their release stand in two queues of their hub. Only a drop adds to them,
and only a drain and the end of the hub take from them. A closed hub keeps its current greenlet,
but for the task that makes the main greenlet the current one, and lists no new greenlets.
-/

namespace Switchyard

open World

structure Hub.Queues (s s' : Hub) : Prop where
  deferred : s'.deferred = s.deferred
  foreign : s'.foreign = s.foreign

/-- From `s` to `s'` a closed hub keeps its current greenlet, unless `C`, and lists no new ones. -/
structure Hub.Rests (C : Prop) (s s' : Hub) : Prop where
  closed : s.closed = true → s'.closed = true
  current : s.closed = true → C ∨ s'.current = s.current
  nodes : s.closed = true → s.nodes = [] → s'.nodes = []

theorem Hub.Rests.trans {C : Prop} {s s' s'' : Hub} (e : s.Rests C s') (e' : s'.Rests C s'') :
    s.Rests C s'' where
  closed := e'.closed ∘ e.closed
  current hc := by
    rcases e.current hc with hC | h
    · exact .inl hC
    · exact (e'.current (e.closed hc)).imp_right fun h' => h'.trans h
  nodes hc hn := e'.nodes (e.closed hc) (e.nodes hc hn)

/-- From `w` to `w'` only the hubs in `Q` change their queues, and only those in `C` change their
current greenlet once they are closed. -/
structure Shifts (Q C : HubId → Prop) (w w' : World) : Prop where
  queues : ∀ h, Q h ∨ (w.hub h).Queues (w'.hub h)
  rests : ∀ h < w.hubs.size, h < w'.hubs.size ∧ (w.hub h).Rests (C h) (w'.hub h)

namespace World

/-- The greenlet at `r` has a stack, and a hub that will have it unwound. -/
def Lingers (w : World) (r : Ref) : Prop :=
  (w.greenlet r).hasStack = true ∧ w.hubLives (w.greenlet r).hub = true ∧
    (w.hub (w.greenlet r).hub).closed = false

end World

namespace Task

/-- The hubs whose queues the task may change. -/
def Requeues (w : World) : Task → HubId → Prop
  | drop r, h => w.Lingers r ∧ h = (w.greenlet r).hub
  | drain k, h | teardownQueues k _, h | dropHubFields k, h => h = k
  | _, _ => False

/-- The hubs whose current greenlet the task may change. -/
def Reseats : Task → HubId → Prop
  | driveTarget k .., h | driveRegister k .., h | teardownCurrent k _, h => h = k
  | _, _ => False

end Task

namespace Shifts

variable {Q C : HubId → Prop} {w w' w'' : World} {h k : HubId} {r target : Ref} {f : FiberId}
  {p : Payload}

theorem of_hubs (hh : w'.hubs = w.hubs) : Shifts Q C w w' where
  queues h := by
    rw [World.hub, World.hub, hh]
    exact .inr ⟨rfl, rfl⟩
  rests h hlt := by
    rw [World.hub, World.hub, hh]
    exact ⟨hlt, id, fun _ => .inr rfl, fun _ => id⟩

theorem refl (w : World) : Shifts Q C w w := of_hubs rfl

theorem of_quiet (hq : Quiet w w') : Shifts Q C w w' := of_hubs hq.hubs

theorem trans (e : Shifts Q C w w') (e' : Shifts Q C w' w'') : Shifts Q C w w'' where
  queues h := by
    rcases e.queues h with hq | ⟨h₁, h₂⟩
    · exact .inl hq
    · exact (e'.queues h).imp_right fun h' => ⟨h'.deferred.trans h₁, h'.foreign.trans h₂⟩
  rests h hlt :=
    have h₁ := e.rests h hlt
    have h₂ := e'.rests h h₁.1
    ⟨h₂.1, h₁.2.trans h₂.2⟩

theorem after (e' : Shifts Q C w' w'') (e : Shifts Q C w w') : Shifts Q C w w'' := e.trans e'

theorem modifyHub {u : Hub → Hub} (hq : Q k ∨ ∀ s : Hub, s.Queues (u s))
    (hr : (w.hub k).Rests (C k) (u (w.hub k))) : Shifts Q C w (w.modifyHub k u) where
  queues h := by
    rcases hub_modifyHub_cases (w := w) (h := h) k u with he | ⟨rfl, he⟩
    · rw [he]
      exact .inr ⟨rfl, rfl⟩
    · rw [he]
      exact hq.imp_right fun hq => hq _
  rests h hlt := by
    refine ⟨by rw [size_modifyHub]; exact hlt, ?_⟩
    rcases hub_modifyHub_cases (w := w) (h := h) k u with he | ⟨rfl, he⟩
    · rw [he]
      exact ⟨id, fun _ => .inr rfl, fun _ => id⟩
    · rw [he]
      exact hr

theorem flag {u : Hub → Hub} (hu : ∀ s, (u s).deferred = s.deferred ∧ (u s).foreign = s.foreign ∧
    (u s).closed = s.closed ∧ (u s).current = s.current ∧ (u s).nodes = s.nodes) :
    Shifts Q C w (w.modifyHub k u) :=
  have ⟨_, _, hc, hr, hn⟩ := hu (w.hub k)
  modifyHub (.inr fun s => ⟨(hu s).1, (hu s).2.1⟩) ⟨hc.trans, fun _ => .inr hr, fun _ => hn.trans⟩

theorem requeue {u : Hub → Hub} (hQ : Q k) (hu : ∀ s, (u s).closed = s.closed ∧
    (u s).current = s.current ∧ (u s).nodes = s.nodes) : Shifts Q C w (w.modifyHub k u) :=
  have ⟨hc, hr, hn⟩ := hu (w.hub k)
  modifyHub (.inl hQ) ⟨hc.trans, fun _ => .inr hr, fun _ => hn.trans⟩

theorem reseat {u : Hub → Hub} (hC : C k) (hu : ∀ s, (u s).deferred = s.deferred ∧
    (u s).foreign = s.foreign ∧ (u s).closed = s.closed ∧ (u s).nodes = s.nodes) :
    Shifts Q C w (w.modifyHub k u) :=
  have ⟨_, _, hc, hn⟩ := hu (w.hub k)
  modifyHub (.inr fun s => ⟨(hu s).1, (hu s).2.1⟩) ⟨hc.trans, fun _ => .inl hC, fun _ => hn.trans⟩

theorem modifyStats (k : HubId) (u : Stats → Stats) : Shifts Q C w (w.modifyStats k u) :=
  flag fun _ => ⟨rfl, rfl, rfl, rfl, rfl⟩

theorem push (ts : List Task) : Shifts Q C w (w.push ts) := of_hubs rfl

theorem setStack (s : List (Item Task)) : Shifts Q C w (w.setStack s) := of_hubs rfl

theorem modifyThread (u : Thread → Thread) : Shifts Q C w (w.modifyThread u) := of_hubs rfl

theorem modifyGreenlet (r : Ref) (u : Greenlet → Greenlet) : Shifts Q C w (w.modifyGreenlet r u) :=
  of_hubs rfl

theorem fail (p : Panic) : Shifts Q C w (w.fail p) := of_hubs rfl

theorem setControl (c : Control Task) : Shifts Q C w (w.setControl c) := of_hubs rfl

theorem takeControl (c : Control Task × Bool) : Shifts Q C w (w.takeControl c) := by
  unfold World.takeControl
  dsimp only
  split <;> exact of_hubs rfl

theorem createHub (w : World) : Shifts Q C w w.createHub.2 where
  queues h := by
    obtain ⟨-, id, hq⟩ := createHub_quiet w
    rw [World.hub, World.hub, hq.hubs]
    simp only [Array.getElem?_push]
    split
    · rename_i he
      exact .inr (by constructor <;> simp [he])
    · exact .inr ⟨rfl, rfl⟩
  rests h hlt := by
    obtain ⟨-, i, hq⟩ := createHub_quiet w
    rw [World.hub, World.hub, hq.hubs]
    simp only [Array.getElem?_push, Array.size_push]
    rw [if_neg (Nat.ne_of_lt hlt)]
    exact ⟨Nat.lt_succ_of_lt hlt, id, fun _ => .inr rfl, fun _ => id⟩

theorem effect {tokens tokens' : List Token} (e : Effect .full tokens w tokens' w') :
    Shifts Q C w w' := by
  induction e with
  | trade => exact refl _
  | quiet hq => exact of_quiet hq
  | trans _ _ ih ih' => exact ih.trans ih'
  | push | frame | take | call | collect | tables | spawn => exact of_hubs rfl
  | register | fail | alloc | retain => exact of_hubs rfl
  | holdHub => exact flag fun _ => ⟨rfl, rfl, rfl, rfl, rfl⟩
  | makeHome => exact (createHub _).trans (of_hubs rfl)
  | create _ _ hc =>
    obtain ⟨ho, -, -, i, hq⟩ := createGreenlet_ok hc
    refine Shifts.trans ?_ (of_quiet hq)
    refine .after (modifyHub (.inr fun _ => ⟨rfl, rfl⟩) ⟨id, fun _ => .inr rfl, fun hcl => ?_⟩)
      (of_hubs rfl)
    exact absurd (hcl.symm.trans ho) (by simp)
  | setParent _ _ hs =>
    obtain ⟨-, -, rfl⟩ := setParent_ok hs
    exact of_hubs rfl

theorem unshare (f : FiberId) : Shifts Q C w (w.unshare f) := takeControl _

theorem dropPinned (q : Pinned FiberId) : Shifts Q C w (w.dropPinned q) := by
  unfold World.dropPinned
  split
  · exact unshare _
  · exact refl w

theorem unwind (f : FiberId) : Shifts Q C w (w.unwind f) := by
  unfold World.unwind
  dsimp only
  split
  · exact of_hubs rfl
  · exact .after (takeControl _) (of_hubs rfl)

theorem abandonStack (r : Ref) : Shifts Q C w (w.abandonStack r).2 := by
  unfold World.abandonStack
  dsimp only
  split
  · exact of_hubs rfl
  · split <;> exact of_hubs rfl

theorem forget (h : HubId) (r : Ref) : Shifts Q C w (w.forget h r) :=
  modifyHub (.inr fun _ => ⟨rfl, rfl⟩) ⟨id, fun _ => .inr rfl, fun _ hn => by simp [hn]⟩

theorem defer (hQ : Q h) : Shifts Q C w (w.defer h r) := by
  unfold World.defer
  exact .after (modifyStats _ _) (.after
    (requeue hQ fun _ => ⟨rfl, rfl, rfl⟩) (of_hubs rfl))

theorem releaseHook (hQ : w.Lingers r → Q (w.greenlet r).hub) :
    Shifts Q C w (w.releaseHook r) := by
  have hkept : Shifts Q C w (w.modifyObject r fun o => { o with count := 1 }) := of_hubs rfl
  unfold World.releaseHook
  dsimp only
  split
  · refine .after (push _) ?_
    split
    · exact forget _ _
    · exact refl w
  rename_i hst
  replace hst : (w.greenlet r).hasStack = true := by simpa using hst
  split
  · exact .after (push _) (.after (abandonStack r) (of_quiet (.write _ _)))
  rename_i hlv
  split
  · exact .after (push _) (.after (modifyStats _ _) (.after (abandonStack r)
      (.after (forget _ _) (of_quiet (.write _ _)))))
  rename_i hcl
  have hq : Q (w.greenlet r).hub := hQ ⟨hst, by simpa using hlv, by simpa using hcl⟩
  split
  · exact .after (requeue hq fun _ => ⟨rfl, rfl, rfl⟩)
      (.after (of_quiet (.write _ _)) hkept)
  split
  · exact .after (push _) (.after (flag fun _ => ⟨rfl, rfl, rfl, rfl, rfl⟩) hkept)
  · exact .after (defer hq) hkept

theorem lastDropped (v : Value) (hQ : w.Lingers r → Q (w.greenlet r).hub) :
    Shifts Q C w (w.lastDropped r v) := by
  unfold World.lastDropped
  split
  · split
    · exact push _
    · exact releaseHook hQ
  · rename_i name lives
    have h₁ : Shifts Q C w (w.modifyObject r fun _ => ⟨1, .phoenix name lives⟩) := of_hubs rfl
    have h₂ := h₁.trans (of_quiet (.event "revive" [.text name, .nat lives]))
    exact .after (push _) (h₂.trans (of_hubs rfl))
  · exact push _

theorem drop (hQ : w.Lingers r → Q (w.greenlet r).hub) : Shifts Q C w (w.drop r) := by
  unfold World.drop
  split
  · exact refl w
  · rename_i o ho
    dsimp only
    have h₁ : Shifts Q C w (w.modifyObject r fun o => { o with count := o.count - 1 }) :=
      of_hubs rfl
    split
    · have hg : (w.modifyObject r fun o => { o with count := o.count - 1 }).greenlet r =
          w.greenlet r := by
        simp only [World.greenlet, valueD, object?_modifyObject, if_true, ho, Option.map_some,
          Option.getD_some]
      refine h₁.trans (lastDropped _ fun hl => ?_)
      rw [hg]
      refine hQ ?_
      unfold Lingers at hl ⊢
      rwa [hg] at hl
    · exact h₁

theorem destroy (r : Ref) : Shifts Q C w (w.destroy r) := by
  unfold World.destroy
  dsimp only
  split
  · exact of_hubs rfl
  · exact .after (push _) (.after (of_quiet (.event _ _)) (of_hubs rfl))
  · exact of_hubs rfl
  · exact of_hubs rfl

theorem release (h : HubId) (r : Ref) : Shifts Q C w (w.release h r) := by
  unfold World.release
  dsimp only
  split
  · exact of_hubs rfl
  · have h₁ : Shifts Q C w (World.modifyHub h (fun s => { s with releasing := true })
        (w.modifyGreenlet r fun g => { g with state := .dead, fiber := none })) :=
      .after (flag fun _ => ⟨rfl, rfl, rfl, rfl, rfl⟩) (of_hubs rfl)
    split
    · exact .after (push _) h₁
    · exact .after (unwind _) (.after (push _) (.after (of_quiet (.write _ _)) h₁))

theorem released (h : HubId) (r : Ref) : Shifts Q C w (w.released h r) :=
  .after (push _) (.after (modifyStats _ _) (flag fun _ => ⟨rfl, rfl, rfl, rfl, rfl⟩))

theorem drain (hQ : Q h) : Shifts Q C w (w.drain h) := by
  unfold World.drain
  dsimp only
  split
  · exact refl w
  · have h₁ : Shifts Q C w (w.modifyHub h fun s => { s with deferred := [], foreign := [] }) :=
      requeue hQ fun _ => ⟨rfl, rfl, rfl⟩
    split
    · exact .after (modifyStats _ _) h₁
    · exact .after (push _) (.after (modifyStats _ _) h₁)

theorem leaveHub (h : HubId) : Shifts Q C w (w.leaveHub h) := by
  unfold World.leaveHub
  dsimp only
  split
  · exact flag fun _ => ⟨rfl, rfl, rfl, rfl, rfl⟩
  · exact .after (push _) (flag fun _ => ⟨rfl, rfl, rfl, rfl, rfl⟩)

theorem foldl_shutNext (rs : List Ref) (n : Nat) (drops : List Task) :
    Shifts Q C w (rs.foldl shutNext (n, drops, w)).2.2 := by
  induction rs generalizing n drops w with
  | nil => exact refl w
  | cons r rs ih =>
    have h₁ : Shifts Q C w (w.shutGreenlet r).2.2 := .after (modifyGreenlet _ _) (abandonStack r)
    exact h₁.trans (ih _ _)

theorem teardown (h : HubId) : Shifts Q C w (w.teardown h) := by
  unfold World.teardown
  dsimp only
  split
  · exact refl w
  · have h₁ : Shifts Q C w (w.modifyHub h fun s => { s with closed := true, nodes := [] }) :=
      modifyHub (.inr fun _ => ⟨rfl, rfl⟩) ⟨fun _ => rfl, fun _ => .inr rfl, fun _ _ => rfl⟩
    exact .after (push _) (.after (modifyStats _ _) (h₁.trans (foldl_shutNext _ _ _)))

theorem teardownQueues (hQ : Q h) (n : Nat) : Shifts Q C w (w.teardownQueues h n) :=
  .after (push _) (requeue hQ fun _ => ⟨rfl, rfl, rfl⟩)

theorem teardownCurrent (hC : C h) (n : Nat) : Shifts Q C w (w.teardownCurrent h n) :=
  .after (push _) (.after (reseat hC fun _ => ⟨rfl, rfl, rfl, rfl⟩)
    (of_hubs rfl))

theorem teardownEnd (h : HubId) (main : Ref) (n : Nat) : Shifts Q C w (w.teardownEnd h main n) :=
  .after (push _) (.after (of_quiet (.write _ _)) (of_hubs rfl))

theorem dropHubFields (hQ : Q h) : Shifts Q C w (w.dropHubFields h) :=
  .after (push _) (requeue hQ fun _ => ⟨rfl, rfl, rfl⟩)

theorem exitSlots : Shifts Q C w w.exitSlots := by
  unfold World.exitSlots
  dsimp only
  split <;> exact of_hubs rfl

theorem exitThread : Shifts Q C w w.exitThread := by
  unfold World.exitThread
  dsimp only
  split <;> exact of_hubs rfl

theorem endHubs : Shifts Q C w w.endHubs := by
  unfold World.endHubs
  split
  · exact refl w
  · exact .after (push _) (.after (of_quiet (.event _ _)) (of_hubs rfl))

theorem raise (e : SwitchError) : Shifts Q C w (w.raise e) :=
  have hr : Effect .full [] w [] (w.raise e) := .raise e
  effect hr

theorem deliver (p : Payload) : Shifts Q C w (w.deliver p) :=
  have hd : Effect .full (p.tokens ++ []) w [] (w.deliver p) := .deliver p fun _ _ => trivial
  effect hd

theorem registerSwitch (hC : C h) : Shifts Q C w (w.registerSwitch h target).2 := by
  by_cases hth : (w.greenlet target).thread = (w.hub h).thread
  · obtain ⟨v, hv, hq⟩ := registerSwitch_ok hth
    rw [hv]
    have h₁ : Shifts Q C w ((w.retain target).modifyHub h fun s => { s with current := target }) :=
      .after (reseat hC fun _ => ⟨rfl, rfl, rfl, rfl⟩) (of_hubs rfl)
    exact .after (of_quiet hq) (.after (modifyStats _ _) (h₁.trans (of_hubs rfl)))
  · unfold World.registerSwitch
    dsimp only
    rw [if_pos (by simpa using hth)]
    exact raise _

theorem switch (h : HubId) (target : Ref) (p : Payload) : Shifts Q C w (w.switch h target p) := by
  unfold World.switch
  split
  · exact .after (push _) (raise _)
  · dsimp only
    split
    · exact .after (deliver p) (of_quiet (.write _ _))
    · split
      · unfold World.switchFromFiber
        dsimp only
        split
        · exact .after (push _) (.after (raise _) (of_hubs rfl))
        · exact .after (push _) (.after (flag fun _ => ⟨rfl, rfl, rfl, rfl, rfl⟩) (of_hubs rfl))
      · exact of_hubs rfl

theorem suspend (h : HubId) (f : FiberId) : Shifts Q C w (w.suspend h f) := by
  unfold World.suspend
  split
  · split
    · exact setControl _
    · exact fail _
  · exact .after (push _) (flag fun _ => ⟨rfl, rfl, rfl, rfl, rfl⟩)

theorem resumed (h : HubId) : Shifts Q C w (w.resumed h) := .after (deliver _) (of_hubs rfl)

theorem drive (h : HubId) (target : Ref) (p : Payload) : Shifts Q C w (w.drive h target p) := by
  unfold World.drive
  dsimp only
  split
  · exact .after (push _) (raise _)
  · exact .after (push _) (flag fun _ => ⟨rfl, rfl, rfl, rfl, rfl⟩)

theorem nextLive (h : HubId) (r : Ref) : Shifts Q C w (w.nextLive h r).2 := by
  unfold World.nextLive
  dsimp only
  split <;> exact of_hubs rfl

theorem driveTarget (hC : C h) : Shifts Q C w (w.driveTarget h target p) := by
  unfold World.driveTarget
  dsimp only
  split
  · have h₁ : Shifts Q C w (w.registerSwitch h target).2 := registerSwitch hC
    split
    · rename_i hr
      rw [hr] at h₁
      exact .after (push _) h₁
    · rename_i hr
      rw [hr] at h₁
      exact .after (push _) h₁
  · split
    · exact of_hubs rfl
    · split
      · exact of_hubs rfl
      · exact .after (push _) (.after (modifyStats _ _) (of_hubs rfl))
      · exact of_hubs rfl

theorem driveRegister (hC : C h) : Shifts Q C w (w.driveRegister h target f) := by
  have h₁ : Shifts Q C w (w.registerSwitch h target).2 := registerSwitch hC
  unfold World.driveRegister
  split
  · rename_i hr
    rw [hr] at h₁
    exact .after (push _) h₁
  · rename_i hr
    rw [hr] at h₁
    exact .after (push _) h₁

theorem driveResume (h : HubId) (target : Ref) (f : FiberId) :
    Shifts Q C w (w.driveResume h target f) := by
  have h₁ : Shifts Q C w ((w.modifyHub h fun s => { s with runningFiber := true }).push
      [.driveBack h target f]) := .after (push _) (flag fun _ => ⟨rfl, rfl, rfl, rfl, rfl⟩)
  unfold World.driveResume
  dsimp only
  split
  · exact .after (setControl _) h₁
  · exact .after (fail _) h₁

theorem driveBack (h : HubId) (target : Ref) (f : FiberId) :
    Shifts Q C w (w.driveBack h target f) := by
  have h₁ : Shifts Q C w
      (w.modifyHub h fun s => { s with runningFiber := false, outgoing := none }) :=
    flag fun _ => ⟨rfl, rfl, rfl, rfl, rfl⟩
  unfold World.driveBack
  dsimp only
  split
  · exact .after (push _) (.after (modifyStats _ _) (.after (modifyGreenlet _ _) h₁))
  · exact .after (push _) h₁

theorem driveFinished (h : HubId) (target : Ref) (out : Option Outgoing) :
    Shifts Q C w (w.driveFinished h target out) := by
  unfold World.driveFinished
  dsimp only
  split <;> exact .after (push _) (.after (nextLive h target) (of_quiet (.write _ _)))

theorem driveSuspended (h : HubId) (target : Ref) (out : Option Outgoing) :
    Shifts Q C w (w.driveSuspended h target out) := by
  rcases out with _ | (⟨next, p⟩ | p)
  · exact .after (push _) (nextLive h target)
  · exact push _
  · exact .after (push _) (nextLive h target)

theorem postResult (h : HubId) (f : FiberId) (p : Payload) :
    Shifts Q C w (w.postResult h f p) := by
  unfold World.postResult
  split
  · exact push _
  · exact .after (push _) (flag fun _ => ⟨rfl, rfl, rfl, rfl, rfl⟩)

theorem runTask {t : Task} (hw : w.Seated) (hs : t.isSignal = false)
    (hf : ∀ st rest, t = .steps (st :: rest) → st.isFacade = true) :
    Shifts (t.Requeues w) t.Reseats w (w.runTask t) := by
  by_cases hscript : t.isScript = true
  · exact effect (.runTask hw hscript (Licence.grants_full _ _))
  cases t with
  | drop r => exact drop fun hl => ⟨hl, rfl⟩
  | dropPinned p => exact dropPinned p
  | destroy r => exact destroy r
  | reclaim | unlock | settle | driveMain => exact of_hubs rfl
  | unshare f => exact unshare f
  | leaveHub k => exact leaveHub k
  | dropHubFields k => exact dropHubFields rfl
  | release k r => exact release k r
  | released k r => exact released k r
  | drain k => exact drain rfl
  | teardown k => exact teardown k
  | teardownQueues k n =>
    have hq : Task.Requeues w (.teardownQueues k n) k := rfl
    exact teardownQueues hq n
  | teardownCurrent k n =>
    have hc : Task.Reseats (.teardownCurrent k n) k := rfl
    exact teardownCurrent hc n
  | teardownEnd k main n => exact teardownEnd k main n
  | switch k target p => exact switch k target p
  | suspend k f => exact suspend k f
  | resumed k => exact resumed k
  | drive k target p => exact drive k target p
  | driveTarget k target p => exact driveTarget rfl
  | driveKilled k target p => exact .after (push _) (nextLive k target)
  | driveRefused k target e => exact of_hubs rfl
  | driveRegister k target f => exact driveRegister rfl
  | driveResume k target f => exact driveResume k target f
  | driveBack k target f => exact driveBack k target f
  | driveFinished k target out => exact driveFinished k target out
  | driveSuspended k target out => exact driveSuspended k target out
  | endDriving k => exact flag fun _ => ⟨rfl, rfl, rfl, rfl, rfl⟩
  | entry => exact refl w
  | steps rest =>
    cases rest with
    | nil => exact absurd rfl hscript
    | cons st rest => exact absurd (hf st rest rfl) hscript
  | endHubs => exact endHubs
  | exitThread => exact exitThread
  | exitSlots => exact exitSlots
  | answer | leave | hand | result | fail => cases hs
  | _ => exact absurd rfl hscript

theorem answer (hw : w.Seated) (outcome : Except SwitchError (Args Obj)) (u : Task) :
    Shifts Q C w (World.answer outcome u w) := by
  cases u with
  | switched name target catches =>
    exact effect (.switched (.inl trivial) name target catches outcome)
  | rally r => exact effect (.rallyAnswered hw r outcome)
  | _ => exact push _

theorem leave (flow : Flow) (u : Task) : Shifts Q C w (World.leave flow u w) := by
  unfold World.leave
  split
  · split
    · exact .after (push _) (of_quiet (.event _ _))
    · exact push _
  · exact of_quiet (.event _ _)
  · exact push _
  · exact push _

theorem hand (last : Args Obj) (flow : Flow) (u : Task) :
    Shifts Q C w (World.hand last flow u w) := by
  cases u with
  | nestEnd how => exact effect (.nestEnd (.inl trivial) how last flow)
  | _ => exact push _

theorem result (p : Payload) (u : Task) : Shifts Q C w (World.result p u w) := by
  cases u with
  | entry k f => exact postResult k f p
  | _ => exact push _

theorem failTask (p : Panic) (u : Task) : Shifts Q C w (World.failTask p u w) := by
  have hcalm : Shifts Q C w w.calm := of_quiet .calm
  unfold World.failTask
  split
  · dsimp only
    have hnote (name : String) (ds : List Datum) : Shifts Q C w (w.calm.note name ds) :=
      .after (of_quiet (.event _ _)) hcalm
    split
    · exact .after (fail p) (hnote _ _)
    · exact hnote _ _
  · exact .after (of_quiet (.event _ _)) hcalm
  · split
    · exact push _
    · exact .after (postResult _ _ _) hcalm
  · exact .after exitThread (.after (modifyThread _) hcalm)
  · exact push _

theorem signal {run : Task → World → World}
    (hr : ∀ (v : World) u, v.Seated → Shifts Q C v (run u v))
    (hw : w.Seated) : Shifts Q C w (w.signal run) := by
  unfold World.signal
  split
  · exact (setStack _).trans (hr _ _ ((seated_modifyThread _).mpr hw))
  · exact refl w

theorem fault (p : Panic) : Shifts Q C w (w.fault p) := by
  unfold World.fault
  split
  · exact refl w
  · exact (setStack _).trans (failTask p _)
  · unfold World.failBase
    dsimp only
    split <;> exact of_hubs rfl

end Shifts

namespace World

variable {w : World} {r : Ref}

/-- The last reference to a greenlet that lingers is kept, for the thread of the greenlet or for a
safe point, or the release begins. -/
theorem drop_of_lingers (hl : w.Lingers r) (hm : (w.greenlet r).isMain = false)
    (hn : w.count r ≤ 1) : w.drop r =
      let g := w.greenlet r
      let kept := w.modifyObject r fun o => { o with count := 1 }
      if g.thread ≠ w.active then
        (kept.debug ("greenlet " ++ g.id.text ++ ": released on foreign " ++
          threadName w.active)).modifyHub g.hub fun s => { s with foreign := s.foreign ++ [r] }
      else if w.canRelease g.hub then
        (kept.holdHub g.hub).push [.release g.hub r, .drain g.hub, .leaveHub g.hub]
      else kept.defer g.hub r := by
  obtain ⟨hst, hlv, hcl⟩ := hl
  have hg : w.greenlet? r = some (w.greenlet r) := by
    cases hg : w.greenlet? r with
    | none => rw [greenlet_of_none hg] at hst; cases hst
    | some g => rw [greenlet_of_some hg]
  obtain ⟨n, ho⟩ := greenlet?_eq_some_iff.mp hg
  rw [count_of_some ho] at hn
  have hg' : (w.modifyObject r fun o => { o with count := o.count - 1 }).greenlet r =
      w.greenlet r := by
    refine greenlet_of_some (greenlet?_eq_some_iff.mpr ⟨n - 1, ?_⟩)
    rw [object?_modifyObject, if_pos rfl, ho]
    rfl
  have hkept : (w.modifyObject r fun o => { o with count := o.count - 1 }).modifyObject r
      (fun o => { o with count := 1 }) = w.modifyObject r fun o => { o with count := 1 } :=
    modifyObject_modifyObject ..
  unfold World.drop
  rw [ho]
  dsimp only
  rw [if_pos hn]
  unfold lastDropped
  dsimp only
  rw [hm, if_neg Bool.false_ne_true]
  unfold releaseHook
  dsimp only
  rw [hg', hkept]
  refine (if_neg ?_).trans ((if_neg ?_).trans ((if_neg ?_).trans ?_))
  · simp [hst]
  · change ¬ (!w.hubLives (w.greenlet r).hub) = true
    simp [hlv]
  · change ¬ (w.hub (w.greenlet r).hub).closed = true
    simp [hcl]
  · simp only [bne_iff_ne]
    rfl

def Requeues (w : World) (h : HubId) : Prop :=
  ∃ t below, w.thread.stack = .task t :: below ∧ t.Requeues w h

def Reseats (w : World) (h : HubId) : Prop :=
  ∃ t below, w.thread.stack = .task t :: below ∧ t.Reseats h

theorem OnFacade.shifts (hf : w.OnFacade) (hw : w.Seated) :
    Shifts w.Requeues w.Reseats w w.next := by
  unfold World.next
  split
  · exact .of_hubs rfl
  · exact .of_hubs rfl
  · rename_i t below hstk
    have hw' : (w.setStack below).Seated := (seated_modifyThread _).mpr hw
    have h₀ {Q C : HubId → Prop} : Shifts Q C w (w.setStack below) := .of_hubs rfl
    by_cases hσ : t.isSignal = true
    · refine h₀.trans ?_
      cases t with
      | answer outcome => exact .signal (fun _ u hv => .answer hv outcome u) hw'
      | leave flow => exact .signal (fun _ u _ => .leave flow u) hw'
      | hand last flow => exact .signal (fun _ u _ => .hand last flow u) hw'
      | result p => exact .signal (fun _ u _ => .result p u) hw'
      | fail p => exact .fault p
      | _ => cases hσ
    · have hrun := Shifts.runTask (t := t) hw' (by simpa using hσ)
        fun st rest ht => hf st rest below (ht ▸ hstk)
      refine ⟨fun h => (hrun.queues h).imp_left fun hq => ⟨t, below, hstk, ?_⟩, fun h hlt => ?_⟩
      · cases t <;> exact hq
      · obtain ⟨h₁, h₂⟩ := hrun.rests h hlt
        exact ⟨h₁, h₂.closed, fun hc => (h₂.current hc).imp_left fun hC => ⟨t, below, hstk, hC⟩,
          h₂.nodes⟩

end World

end Switchyard
