import Switchyard.Proofs.Motion.Releases

/-!
# Switching in motion

Each task of a switch, from the request to the end of the driver, is a sequence of motions. The hub
that it works on is kept by a task below.
-/

namespace Switchyard

open World

namespace World

variable {w : World} {r q : Ref}

theorem parent_of_findAncestor {p : Ref → Bool} {n : Nat}
    (h : w.findAncestor p n r = .ok (some q)) : ∃ u, w.parent u = some q := by
  induction n generalizing r with
  | zero =>
    unfold findAncestor at h
    split at h <;> cases h
  | succ n ih =>
    unfold findAncestor at h
    split at h
    · cases h
    · rename_i u hu
      split at h
      · cases h
        exact ⟨r, hu⟩
      · exact ih h

private theorem stack_congr {w' : World} (ht : w'.threads = w.threads)
    (ha : w'.active = w.active) : w'.thread.stack = w.thread.stack := by
  unfold World.thread
  rw [ht, ha]

theorem stack_of_nextLive {w' : World} {h : HubId} (hn : w.nextLive h r = (q, w')) :
    w'.thread.stack = w.thread.stack := by
  unfold World.nextLive at hn
  simp only at hn
  split at hn
  · obtain ⟨-, rfl⟩ := Prod.mk.inj hn
    exact stack_congr rfl rfl
  · obtain ⟨-, rfl⟩ := Prod.mk.inj hn
    exact stack_congr rfl rfl

theorem stack_of_registerSwitch {w' : World} {h : HubId} {prev : Ref}
    (hr : w.registerSwitch h q = (.ok prev, w')) : w'.thread.stack = w.thread.stack := by
  unfold World.registerSwitch at hr
  simp only at hr
  split at hr
  · simp at hr
  · obtain ⟨-, rfl⟩ := Prod.mk.inj hr
    split <;> simp only [World.thread, World.trace, World.write, modifyStats, modifyHub, setState,
      modifyGreenlet, modifyObject, retain]

theorem greenlet_retain (q : Ref) : (w.retain r).greenlet q = w.greenlet q := by
  simp only [greenlet_eq, greenlet?, retain, object?_modifyObject]
  split
  · cases w.object? q <;> rfl
  · rfl

end World

namespace World

def topFiber (w : World) : Option FiberId := (Control.split w.thread.stack).map fun x => x.2.1

end World

namespace Motion

variable {L : Licence} {w w' : World} {hand hand' : List Token} {r target : Ref} {h : HubId}
  {f : FiberId}

theorem registerSwitch {x : Except SwitchError Ref} (hh : L.hubs h) (hg : L.greenlets target)
    (hc : L.greenlets (w.hub h).current) (he : w.Enters h)
    (ht : Motion L hand w (.object target :: hand) (w.retain target))
    (hr : w.registerSwitch h target = (x, w')) :
    Motion L hand w ((x.toOption.map Token.object).toList ++ hand) w' := by
  unfold World.registerSwitch at hr
  simp only at hr
  split at hr
  · simp only [Prod.mk.injEq] at hr
    obtain ⟨rfl, rfl⟩ := hr
    exact .script (.raise _)
  · rename_i hth
    simp only [Prod.mk.injEq] at hr
    obtain ⟨rfl, rfl⟩ := hr
    have hth : (w.greenlet target).thread = (w.hub h).thread := by simpa using hth
    have hm : Motion L hand w (.object (w.hub h).current :: hand)
        ((w.retain target).modifyHub h fun s => { s with current := target }) :=
      ht.trans (.current hh he (.inl (by rw [greenlet_retain]; exact hth)))
    refine ((?_ : Motion L _ _ _ _).trans (setState hg .running)).trans
      ((modifyStats hh _).trans (write _ _))
    split
    · exact hm.trans (setState hc _)
    · exact hm

theorem nextLive {next : Ref} (he : w.Enters h) (hn : w.nextLive h r = (next, w')) :
    Motion L hand w (.object next :: hand) w' := by
  unfold World.nextLive at hn
  simp only at hn
  split at hn
  · rename_i found hf
    simp only [Prod.mk.injEq] at hn
    obtain ⟨rfl, rfl⟩ := hn
    refine .retain _ ?_
    cases found with
    | none => exact .main he rfl
    | some q =>
      have ha : w.findAncestor (fun q => !(w.greenlet q).state.isDead) w.depthLimit r =
          .ok (some q) := by
        unfold World.ancestor World.ancestorWithin at hf
        split at hf
        · rename_i he
          rw [he]
          cases hf
          rfl
        · cases hf
      obtain ⟨u, hu⟩ := parent_of_findAncestor ha
      exact .parent hu
  · simp only [Prod.mk.injEq] at hn
    obtain ⟨rfl, rfl⟩ := hn
    refine (write .warn _).trans (.retain _ (.main (h := h) ?_ rfl))
    exact he

theorem tokens_exitToEmpty (p : Payload) : (World.exitToEmpty p).tokens = p.tokens := by
  unfold World.exitToEmpty
  split
  · split <;> rfl
  · rfl

theorem refusing (hw : w.Seated) (e : SwitchError) {ts : List Task}
    (ht : ts.all Task.isAlone = true)
    (hc : L.Pays (fun k => (Task.tokensOf ts).count k + hand'.count k) hand.count) :
    Motion L hand w hand' ((w.raise e).push ts) := by
  have hr : Motion L hand w hand (w.raise e) := .script (.raise e)
  exact hr.pushing hw ht hc

theorem deliver (p : Payload) (hl : ∀ a, p = .ok a → L.clears) :
    Motion L p.tokens w [] (w.deliver p) := by
  have e : Effect L (p.tokens ++ []) w [] (w.deliver p) := .deliver p hl
  rw [List.append_nil] at e
  exact .script e

theorem post (hh : L.hubs h) (hs : h < w.hubs.size) (o : Outgoing) : Motion L (o.tokens ++ hand) w
    (((w.hub h).outgoing.map Outgoing.tokens).getD [] ++ hand)
    (w.modifyHub h fun s => { s with outgoing := some o }) :=
  modifyHub hh (fun _ => ⟨rfl, rfl, rfl, rfl, rfl, rfl, rfl⟩) (.inl hs) (.of_eq fun k _ => by
    simp only [Hub.tokens, Option.map_some, Option.getD_some, List.count_append]
    omega)

theorem switchFromFiber (hw : w.Seated) (hh : L.hubs h) (hs : h < w.hubs.size) (target : Ref)
    (p : Payload) : Motion L (.object target :: p.tokens) w [] (w.switchFromFiber h target p) := by
  unfold World.switchFromFiber
  simp only
  split
  · refine refusing hw _ ?_ (.of_eq fun k _ => ?_)
    · rw [List.all_append, Task.all_isAlone_dropPayload]
      rfl
    · simp [Task.tokens, List.count_cons]
  · have ho : Motion L (.object target :: p.tokens) w
        (((w.hub h).outgoing.map Outgoing.tokens).getD [] ++ [])
        (w.modifyHub h fun s => { s with outgoing := some (.switch target p) }) := by
      have hp : Motion L (_ ++ []) w _ _ := post hh hs (.switch target p)
      rwa [List.append_nil] at hp
    refine ho.pushing hw ?_ (.of_eq fun k _ => by simp [Task.tokens])
    rw [List.all_append, Task.all_isAlone_dropOutgoing]
    rfl

theorem switch (hw : w.Seated) (hh : L.hubs h) {p : Payload}
    (hs : (Task.switch h target p).Sits w.thread.stack)
    (hl : w.clears (.switch h target p) = true → L.clears) :
    Motion L p.tokens w [] (w.switch h target p) := by
  have hk : Item.keeps h w.thread.stack = true := hs.kept h rfl
  unfold World.switch
  split
  · refine refusing hw _ ?_ (.of_eq fun k _ => by simp [Task.tokens])
    rw [List.all_append, Task.all_isAlone_dropPayload]
    rfl
  · rename_i hne
    have hlt : h < w.hubs.size := by
      by_contra hn
      simp [World.switchError?, World.hub, Array.getElem?_eq_none (Nat.le_of_not_lt hn)] at hne
    simp only
    split
    · rename_i he
      refine (write _ _).trans (deliver p fun a hp => hl ?_)
      subst hp
      simpa [World.clears] using he.symm
    · have hb : w.Backs p.tokens target := by
        obtain ⟨u, rest, he, -, hu⟩ := hs.lent h target p rfl
        refine .stack ?_
        rw [he]
        simp [Item.tokens, hu]
      have hr : Motion L p.tokens w (.object target :: p.tokens) (w.retain target) := .retain _ hb
      split
      · exact hr.trans (switchFromFiber (hr.seated hw) hh hlt target p)
      · exact hr.pushingOn hw (l := []) rfl (.guest (h := h) rfl (by simp) hk)
          (.of_eq fun k _ => by simp [Task.tokens])

private theorem spares_suspend {c c' : Control Task} (hr : c.suspend = some c')
    (hf : ∀ x, Control.split c.stack = some x → L.fibers x.2.1) : L.Spares c c' := by
  unfold Control.suspend at hr
  obtain ⟨⟨above, f, forced, below⟩, hs, hk⟩ := Option.map_eq_some_iff.mp hr
  simp only at hk
  split at hk
  · subst hk
    exact fun _ _ _ => rfl
  · subst hk
    exact spares_modify (hf _ hs) c fun s => { s with phase := .parked above }

theorem suspend (hw : w.Seated) (hh : L.hubs h) (hf : ∀ q, w.topFiber = some q → L.fibers q)
    (hm : (∀ k, L.Loses k) ∨ w.control.Mounted) (f : FiberId) : Motion L [] w [] (w.suspend h f) := by
  unfold World.suspend
  split
  · split
    · rename_i c hc
      have hp : Motion L [] w [] (w.push [.resumed h]) := pushAlone hw rfl (.of_eq fun k _ => by
        simp [Task.tokens])
      have hsplit : Control.split (w.push [.resumed h]).control.stack =
          (Control.split w.thread.stack).map fun x => (.task (.resumed h) :: x.1, x.2) := by
        change Control.split (w.push [.resumed h]).thread.stack = _
        rw [World.push, thread_modifyThread hw]
        rfl
      have hs := hp.trans (fibers (fun hf => hf.suspend hc) (spares_suspend hc fun x hx => ?_)
        (fun _ k => Control.claims_suspend hc k) fun _ => hm.imp_right fun hm k => ?_)
      · rwa [setControl_push] at hs
      · rw [hsplit] at hx
        obtain ⟨y, hy, rfl⟩ := Option.map_eq_some_iff.mp hx
        exact hf _ (by rw [World.topFiber, hy]; rfl)
      · refine Control.owed_suspend (fun above q below hx => ?_) hc k
        rw [hsplit] at hx
        obtain ⟨y, hy, he⟩ := Option.map_eq_some_iff.mp hx
        obtain ⟨a, q', forced, b⟩ := y
        simp only [Prod.mk.injEq] at he
        obtain ⟨-, rfl, rfl, -⟩ := he
        exact hm _ _ _ hy
    · exact .script (.fail _)
  · have ho : Motion L [] w (((w.hub h).outgoing.map Outgoing.tokens).getD [] ++ []) _ :=
      takeOutgoing hh (f := fun s => { s with outgoing := none })
        (fun _ => ⟨rfl, rfl, rfl, rfl, rfl, rfl, rfl⟩) fun _ => ⟨rfl, rfl, rfl⟩
    refine ho.pushing hw ?_ (.of_eq fun k _ => by simp [Task.tokens])
    rw [List.all_append, Task.all_isAlone_dropOutgoing]
    rfl

theorem resumed (hg : L.greenlets (w.hub h).current)
    (hl : w.clears (.resumed h) = true → L.clears) :
    Motion L [] w [] (w.resumed h) := by
  have hm : Motion L [] w ((w.greenlet (w.hub h).current).inbox.getD (.ok .empty)).tokens
      (w.modifyGreenlet (w.hub h).current fun g => { g with inbox := none }) := by
    refine modifyGreenlet hg (fun _ => ⟨rfl, rfl, rfl, rfl⟩) (fun _ => .inr (.inl rfl))
      (.inr fun g h₀ => ?_) (.inl rfl) (.of_eq fun k _ => ?_)
    · simp only [Greenlet.tokens, List.append_eq_nil_iff, Option.map_none, Option.getD_none] at h₀ ⊢
      exact ⟨h₀.1, trivial⟩
    · simp only [Greenlet.tokens, List.count_append]
      cases (w.greenlet (w.hub h).current).inbox with
      | none => simp [Payload.tokens]
      | some p => simp
  refine hm.trans (deliver _ fun a hp => hl ?_)
  rw [World.clears, hp]
  rfl

theorem drive (hw : w.Seated) (hk : Item.keeps h w.thread.stack = true) (hh : L.hubs h)
    (target : Ref) (p : Payload) :
    Motion L (.object target :: p.tokens) w [] (w.drive h target p) := by
  unfold World.drive
  simp only
  split
  · refine refusing hw _ ?_ (.of_eq fun k _ => ?_)
    · rw [List.all_append, Task.all_isAlone_dropPayload]
      rfl
    · simp [Task.tokens, List.count_cons]
  · have hd : Motion L (.object target :: p.tokens) w (.object target :: p.tokens)
        (w.modifyHub h fun s => { s with driving := true }) :=
      hubQuiet hh (fun _ => ⟨rfl, rfl, rfl, rfl, rfl, rfl, rfl⟩) fun _ => rfl
    exact hd.pushingOn hw (l := [.drain h]) rfl (.guest (h := h) rfl (by simp) hk)
      (.of_eq fun k _ => by simp [Task.tokens])

theorem retarget {w₀ : World} (m : Motion L hand w₀ hand' w) (hw : w₀.Seated)
    (hk : Item.keeps h w.thread.stack = true) {next : Ref} {p : Payload}
    (hc : ∀ k, hand'.count k = (.object target :: .object next :: p.tokens).count k) :
    Motion L hand w₀ [] (w.retarget h target next p) :=
  m.pushingOn hw (l := [.drop target, .drain h]) rfl (.guest (h := h) rfl nofun hk)
    (.of_eq fun k _ => by rw [hc k]; simp [Task.tokens])

private theorem takeRun (hg : L.greenlets target) {f : Greenlet → Greenlet}
    (hs : ∀ g : Greenlet, g.Stays (f g))
    (hf : ∀ g, (f g).parent = g.parent ∧ (f g).run = none ∧ (f g).fiber = g.fiber ∧
      (f g).inbox = g.inbox) :
    Motion L hand w (((w.greenlet target).run.map RunFn.tokens).getD [] ++ hand)
      (w.modifyGreenlet target f) := by
  have empty (g : Greenlet) (h₀ : g.tokens = []) : (f g).tokens = [] := by
    obtain ⟨h₁, h₂, h₃, h₄⟩ := hf g
    simp only [Greenlet.tokens, List.append_eq_nil_iff, h₁, h₂, h₃, h₄, Option.map_none,
      Option.getD_none] at h₀ ⊢
    exact ⟨⟨⟨h₀.1.1.1, trivial⟩, h₀.1.2⟩, h₀.2⟩
  refine modifyGreenlet hg hs (fun g => .inr (.inl (hf g).2.2.1)) (.inr empty) (.inl (empty _ rfl))
    (.of_eq fun k _ => ?_)
  obtain ⟨h₁, h₂, h₃, h₄⟩ := hf (w.greenlet target)
  simp only [Greenlet.tokens, h₁, h₂, h₃, h₄, Option.map_none, Option.getD_none,
    List.count_append, List.count_nil]
  omega

private theorem createFiber (run : RunFn) (args : Args Obj) (f : FiberId) :
    Motion L (run.tokens ++ args.tokens ++ hand) w hand
      (w.setControl ((w.control.create [.runBody run args, .entry h f]
        (Task.dropRun run ++ Task.dropArgs args)).2.share w.fibers.size)) := by
  have hshare (x : Fiber Task) : ({ x with handles := x.handles + 1 } : Fiber Task).phase =
      x.phase := rfl
  refine .control (fun hc => (hc.create ⟨rfl, ?_, fun x => ?_⟩).share _) (fun q _ hq => ?_)
    (fun _ k _ => ?_) fun _ k _ => .inr ?_
  · rw [List.all_append, Task.all_isAlone_dropRun]
    exact Task.all_isAlone_of_isPlain (Task.all_isPlain_dropArgs args)
  · simp [Task.tokens]
  · have hne : w.fibers.size ≠ q := fun he => Nat.lt_irrefl q (he ▸ hq)
    have hlt : q < w.fibers.size := hq
    simp [Control.share, Control.modify, Control.create, Array.getElem?_modify, World.control, hne,
      Array.getElem?_push, Ne.symm hne]
  · have h₁ := Control.claims_create w.control [.runBody run args, .entry h f]
      (Task.dropRun run ++ Task.dropArgs args) k
    have h₂ := Control.claims_handles (k := (w.control.create [.runBody run args, .entry h f]
      (Task.dropRun run ++ Task.dropArgs args)).2) (f := w.fibers.size) hshare k
    simp only [Task.tokensOf_cons, Task.tokens, Task.tokensOf_nil, List.append_nil,
      List.count_append, Control.share] at h₁ h₂ ⊢
    omega
  · have h₁ := Control.owed_create w.control [.runBody run args, .entry h f]
      (Task.dropRun run ++ Task.dropArgs args) k
    have h₂ := Control.owed_modify (k := (w.control.create [.runBody run args, .entry h f]
      (Task.dropRun run ++ Task.dropArgs args)).2) (f := w.fibers.size)
      (fun x => congrArg Fiber.Phase.tokens (hshare x)) k
    simp only [Task.tokensOf_cons, Task.tokens, Task.tokensOf_nil, List.append_nil,
      List.count_append, Control.share] at h₁ h₂ ⊢
    omega

private theorem continueFiber (hw : w.Seated) (hk : Item.keeps h w.thread.stack = true)
    (hg : L.greenlets target) (hf : L.fibers f) (p : Payload)
    (he : ∃ g, w.greenlet? target = some g) :
    Motion L (.object target :: p.tokens) w []
      (((w.setControl (w.control.share f)).modifyGreenlet target fun g =>
        { g with inbox := some p }).push
          (((w.greenlet target).inbox.map Task.dropPayload).getD [] ++
            [.driveRegister h target f])) := by
  have hshare (x : Fiber Task) : ({ x with handles := x.handles + 1 } : Fiber Task).phase =
      x.phase := rfl
  have hs : Motion L (.object target :: p.tokens) w (.object target :: p.tokens)
      (w.setControl (w.control.share f)) :=
    fibers (fun hc => hc.share f) (spares_modify hf _ _) (fun _ k => Control.claims_handles hshare k)
      fun _ => .inr fun k => Control.owed_modify (fun x => congrArg Fiber.Phase.tokens (hshare x)) k
  have hm : Motion L (.object target :: p.tokens) w
      (((w.greenlet target).inbox.map Payload.tokens).getD [] ++ [.object target])
      ((w.setControl (w.control.share f)).modifyGreenlet target fun g =>
        { g with inbox := some p }) := by
    refine hs.trans (modifyGreenlet hg (fun _ => ⟨rfl, rfl, rfl, rfl⟩)
      (fun _ => .inr (.inl rfl)) (.inl (by simp)) (.inr he) (.of_eq fun k _ => ?_))
    have he : (w.setControl (w.control.share f)).greenlet target = w.greenlet target := rfl
    simp only [he, Greenlet.tokens, List.count_append, List.count_cons, List.count_nil,
      Option.map_some, Option.getD_some]
    omega
  refine hm.pushingOn hw (Task.all_isAlone_getD_dropPayload _) (.guest (h := h) rfl (by simp) ?_)
    (.of_eq fun k hk => ?_)
  · change Item.keeps h (w.setControl (w.control.share f)).thread.stack = true
    rw [stack_setControl hw]
    exact hk
  · cases (w.greenlet target).inbox <;>
      simp [Task.tokens, List.count_cons, Token.count_cons_fiber hk]

private theorem startFiber (hw : w.Seated) (hk : Item.keeps h w.thread.stack = true)
    (hh : L.hubs h) (hg : L.greenlets target) {run : RunFn}
    (hr : (w.greenlet target).run = some run) (args : Args Obj)
    (he : ∃ g, w.greenlet? target = some g) :
    Motion L (.object target :: args.tokens) w []
      ((((w.setControl ((w.control.create [.runBody run args, .entry h w.fibers.size]
        (Task.dropRun run ++ Task.dropArgs args)).2.share w.fibers.size)).modifyGreenlet target
          fun g => { g with run := none, fiber := some ⟨w.active, w.fibers.size⟩ }).modifyStats h
            fun s => { s with started := s.started + 1 }).push
              [.driveRegister h target w.fibers.size]) := by
  have ht : Motion L (.object target :: args.tokens) w
      (run.tokens ++ args.tokens ++ [.object target])
      (w.modifyGreenlet target fun g =>
        { g with run := none, fiber := some ⟨w.active, w.fibers.size⟩ }) := by
    have hp (p : Option (Pinned FiberId)) {k : Token} (hk : k.isTraded = true) :
        ((p.map Pinned.tokens).getD []).count k = 0 := by
      cases p with
      | none => rfl
      | some p =>
        cases k with
        | fiber => cases hk
        | _ => simp [Pinned.tokens]
    refine modifyGreenlet hg (fun _ => ⟨rfl, rfl, rfl, rfl⟩) (fun _ => .inr (.inr (by simp)))
      (.inl (by simp)) (.inr he) (.of_eq fun k hk => ?_)
    simp only [Greenlet.tokens, hr, hp _ hk, Option.map_some, Option.getD_some, Option.map_none,
      Option.getD_none, List.count_append, List.count_cons, List.count_nil]
    have := hp (some ⟨w.active, w.fibers.size⟩) hk
    simp only [Option.map_some, Option.getD_some] at this
    omega
  have hc := ht.trans (createFiber (h := h) run args w.fibers.size)
  have hm := hc.trans (modifyStats hh fun s => { s with started := s.started + 1 })
  refine hm.pushingOn hw (l := []) (t := .driveRegister h target w.fibers.size) rfl
    (.guest (h := h) rfl (by simp) ?_) (.of_eq fun k hk => ?_)
  · have hs : Item.keeps h (w.setControl ((w.control.create [.runBody run args,
        .entry h w.fibers.size] (Task.dropRun run ++ Task.dropArgs args)).2.share
          w.fibers.size)).thread.stack = true := by
      rw [stack_setControl hw]
      exact hk
    exact hs
  · simp [Task.tokens, List.count_cons, Token.count_cons_fiber hk]

private theorem refuseTarget (hw : w.Seated) (hk : Item.keeps h w.thread.stack = true)
    (hg : L.greenlets target) (p : Payload) :
    Motion L (.object target :: p.tokens) w []
      ((w.modifyGreenlet target fun g => { g with run := none }).push
        (((w.greenlet target).run.map Task.dropRun).getD [] ++ Task.dropPayload p ++
          [.driveRefused h target (.deadTarget (w.greenlet target).id)])) := by
  have hm : Motion L (.object target :: p.tokens) w _ _ := takeRun hg
    (f := fun g => { g with run := none }) (fun _ => ⟨rfl, rfl, rfl, rfl⟩)
    fun _ => ⟨rfl, rfl, rfl, rfl⟩
  refine hm.pushingOn hw ?_ (.guest (h := h) rfl nofun hk) (.of_eq fun k _ => ?_)
  · rw [List.all_append, Task.all_isAlone_getD_dropRun, Task.all_isAlone_dropPayload]
    rfl
  · cases (w.greenlet target).run <;> simp [Task.tokens, List.count_cons]

theorem driveTarget (hw : w.Seated) (hk : Item.keeps h w.thread.stack = true) (hh : L.hubs h)
    (hg : L.greenlets target) (hc : L.greenlets (w.hub h).current)
    (hf : ∀ f, w.ownFiber target = some f → L.fibers f) (p : Payload) :
    Motion L (.object target :: p.tokens) w [] (w.driveTarget h target p) := by
  have ht : Motion L (.object target :: p.tokens) w
      (.object target :: .object target :: p.tokens) (w.retain target) := .retain _ (.hand (by simp))
  have found (hn : w.greenlet target ≠ .absent) : ∃ g, w.greenlet? target = some g := by
    cases he : w.greenlet? target with
    | none => exact absurd (greenlet_of_none he) hn
    | some g => exact ⟨g, rfl⟩
  unfold World.driveTarget
  simp only
  split
  · split
    · rename_i prev v hr
      have hm := registerSwitch hh hg hc (.inl hk) ht hr
      exact hm.pushing hw rfl (.of_eq fun k _ => by
        simp [Task.tokens, Except.toOption, List.count_cons])
    · rename_i e v hr
      have hm := registerSwitch hh hg hc (.inl hk) ht hr
      refine hm.pushing hw ?_ (.of_eq fun k _ => ?_)
      · simp only [List.all_append, Task.all_isAlone_dropPayload]
        rfl
      · simp [Task.tokens, Except.toOption, List.count_cons]
  split
  · rename_i f _
    have hd : Motion L (.object target :: Payload.tokens (.error f)) w [.object target]
        (w.debug ("greenlet " ++ (w.greenlet target).id.text ++ ": killed before start")) :=
      (write _ _).trading (.of_eq fun k _ => by simp [Payload.tokens])
    have hm := hd.trans (takeRun hg (fun _ => ⟨rfl, rfl, rfl, rfl⟩) (f := fun g =>
      { g with state := .dead, run := none }) fun _ => ⟨rfl, rfl, rfl, rfl⟩)
    refine hm.pushingOn hw (Task.all_isAlone_getD_dropRun _) (.guest (h := h) rfl (by simp) hk)
      (.of_eq fun k _ => ?_)
    have he : (w.debug ("greenlet " ++ (w.greenlet target).id.text ++
      ": killed before start")).greenlet target = w.greenlet target := rfl
    rw [he]
    cases (w.greenlet target).run <;> simp [Task.tokens, Payload.tokens, List.count_cons]
  · split
    · rename_i f hp _
      refine continueFiber hw hk hg (hf f hp) _ (found fun hn => ?_)
      rw [hn] at hp
      cases hp
    · rename_i run args _ hr _
      refine startFiber hw hk hh hg hr args (found fun hn => ?_)
      rw [hn] at hr
      cases hr
    · exact refuseTarget hw hk hg _

theorem driveKilled (hw : w.Seated) (hk : Item.keeps h w.thread.stack = true) (target : Ref)
    (p : Payload) : Motion L (.object target :: p.tokens) w [] (w.driveKilled h target p) := by
  unfold World.driveKilled
  rcases hn : w.nextLive h target with ⟨next, v⟩
  have hm : Motion L (.object target :: p.tokens) _ _ _ := nextLive (.inl hk) hn
  refine hm.retarget hw ?_ fun k => ?_
  · rw [stack_of_nextLive hn]
    exact hk
  · simp only [tokens_exitToEmpty, List.count_cons]
    omega

theorem driveRefused (hw : w.Seated) (hk : Item.keeps h w.thread.stack = true) (target : Ref)
    (e : SwitchError) : Motion L [.object target] w [] (w.driveRefused h target e) := by
  have hd : Motion L [.object target] w [.object target]
      (w.debug ("greenlet " ++ (w.greenlet target).id.text ++ ": cannot resume: " ++ e.message)) :=
    write _ _
  have hr := hd.trans (.retain _ (.main (h := h) (.inl hk) rfl))
  refine hr.retarget hw hk fun k => ?_
  have he : ((w.debug ("greenlet " ++ (w.greenlet target).id.text ++ ": cannot resume: " ++
    e.message)).hub h).main = (w.hub h).main := rfl
  simp only [he, Payload.tokens, List.count_cons, List.count_nil]
  omega

theorem driveMain (hw : w.Seated) (target : Ref) (p : Payload) :
    Motion L (.object target :: p.tokens) w [] (w.driveMain h target p) :=
  pushAlone hw rfl (.of_eq fun k _ => by simp [Task.tokens])

theorem endDriving (hh : L.hubs h) : Motion L hand w hand (w.endDriving h) :=
  hubQuiet hh (fun _ => ⟨rfl, rfl, rfl, rfl, rfl, rfl, rfl⟩) fun _ => rfl

theorem driveRegister (hw : w.Seated) (hk : Item.keeps h w.thread.stack = true) (hh : L.hubs h)
    (hg : L.greenlets target) (hc : L.greenlets (w.hub h).current) (f : FiberId) :
    Motion L [.object target] w [] (w.driveRegister h target f) := by
  have ht : Motion L [.object target] w [.object target, .object target] (w.retain target) :=
    .retain _ (.hand (by simp))
  unfold World.driveRegister
  rcases hr : w.registerSwitch h target with ⟨x, v⟩
  have hm := registerSwitch hh hg hc (.inl hk) ht hr
  cases x with
  | ok prev =>
    have hs := stack_of_registerSwitch hr
    refine hm.pushingOn hw (l := [.drop prev]) rfl (.guest (h := h) rfl nofun ?_)
      (.of_eq fun k hk => ?_)
    · rw [hs]
      exact hk
    · cases k with
      | sole | fiber => cases hk
      | _ => simp [Task.tokens, Except.toOption, List.count_cons]
  | error e =>
    refine hm.pushing hw rfl (.of_eq fun k hk => ?_)
    cases k with
    | sole | fiber => cases hk
    | _ => simp [Task.tokens, Except.toOption, List.count_cons]

private theorem spares_resume (hf : L.fibers f) {c c' : Control Task} (hr : c.resume f = some c') :
    L.Spares c c' := by
  unfold Control.resume at hr
  split at hr
  · cases hr
  · obtain rfl := Option.some.inj hr
    exact spares_modify hf c fun s => { s with phase := .active, armed := true, started := true }
  · obtain rfl := Option.some.inj hr
    exact spares_modify hf c fun s => { s with phase := .active }
  · obtain rfl := Option.some.inj hr
    exact fun _ _ _ => rfl
  · obtain rfl := Option.some.inj hr
    exact fun _ _ _ => rfl

theorem driveResume (hw : w.Seated) (hk : Item.keeps h w.thread.stack = true) (hh : L.hubs h)
    (hf : L.fibers f) (target : Ref) : Motion L [.object target] w [] (w.driveResume h target f) := by
  have hr : Motion L [.object target] w [.object target]
      (w.modifyHub h fun s => { s with runningFiber := true }) :=
    hubQuiet hh (fun _ => ⟨rfl, rfl, rfl, rfl, rfl, rfl, rfl⟩) fun _ => rfl
  have hp : Motion L [.object target] w [] _ :=
    hr.pushingOn hw (l := []) (t := .driveBack h target f) rfl (.guest (h := h) rfl nofun hk)
      (.of_eq fun k hk => by
        cases k with
        | sole | fiber => cases hk
        | _ => simp [Task.tokens, List.count_cons])
  unfold World.driveResume
  simp only
  split
  · rename_i c hc
    exact hp.trans (fibers (fun hf => hf.resume hc) (spares_resume hf hc)
      (fun _ k => Control.claims_resume hc k) fun _ => .inr fun k => Control.owed_resume hc k)
  · exact hp.trans (.script (.fail _))

theorem driveBack (hw : w.Seated) (hk : Item.keeps h w.thread.stack = true) (hh : L.hubs h)
    (hg : L.greenlets target) (f : FiberId) :
    Motion L [.object target] w [] (w.driveBack h target f) := by
  have ho : Motion L [.object target] w
      (((w.hub h).outgoing.map Outgoing.tokens).getD [] ++ [.object target])
      (w.modifyHub h fun s => { s with runningFiber := false, outgoing := none }) :=
    takeOutgoing hh (fun _ => ⟨rfl, rfl, rfl, rfl, rfl, rfl, rfl⟩) fun _ => ⟨rfl, rfl, rfl⟩
  unfold World.driveBack
  simp only
  split
  · have hg := ho.trans (greenletQuiet hg (f := fun g => { g with state := .dead, fiber := none })
      (fun _ => ⟨rfl, rfl, rfl, rfl⟩) (fun _ => .inl rfl) fun _ => ⟨rfl, rfl, rfl⟩)
    have hs := hg.trans (modifyStats hh fun s => { s with finished := s.finished + 1 })
    rw [List.append_cons]
    refine hs.pushingOn hw ?_ (.guest (h := h) rfl (by simp) hk) (.of_eq fun k hk => ?_)
    · cases (World.greenlet _ target).fiber <;> rfl
    · cases k with
      | sole | fiber => cases hk
      | _ =>
        cases (World.greenlet _ target).fiber <;>
          simp [Task.tokens, List.count_cons]
  · refine ho.pushingOn hw (l := [.unshare f]) rfl (.guest (h := h) rfl (by simp) hk)
      (.of_eq fun k hk => ?_)
    cases k with
    | sole | fiber => cases hk
    | _ => simp [Task.tokens, List.count_cons]

theorem driveFinished (hw : w.Seated) (hk : Item.keeps h w.thread.stack = true) (target : Ref)
    (out : Option Outgoing) :
    Motion L (.object target :: (out.map Outgoing.tokens).getD []) w []
      (w.driveFinished h target out) := by
  let name := (w.greenlet target).id.text
  rcases hn : (w.trace ("greenlet " ++ name ++ " finished")).nextLive h target with ⟨next, v⟩
  have ht : Motion L (.object target :: (out.map Outgoing.tokens).getD []) w
      (.object target :: (out.map Outgoing.tokens).getD [])
      (w.trace ("greenlet " ++ name ++ " finished")) := write _ _
  have hm := ht.trans (nextLive (.inl hk) hn)
  have hs : Item.keeps h v.thread.stack = true := by
    rw [stack_of_nextLive hn]
    exact hk
  unfold World.driveFinished
  simp only
  rw [hn]
  simp only
  split
  · rename_i p
    refine hm.retarget hw hs fun k => ?_
    simp only [tokens_exitToEmpty, Option.map_some, Option.getD_some, Outgoing.tokens,
      List.count_cons]
    omega
  · have he (t : Task) : [.drop target] ++ Task.dropOutgoing out ++ [.drain h, t] =
      [.drop target] ++ Task.dropOutgoing out ++ [.drain h] ++ [t] := by simp
    rw [he]
    refine hm.pushingOn hw ?_
      (.guest (h := h) rfl (by simp) hs) (.of_eq fun k _ => ?_)
    · simp only [List.all_append, Task.all_isAlone_dropOutgoing]
      rfl
    · simp [Task.tokens, List.count_cons, Payload.tokens]
      omega

theorem driveSuspended (hw : w.Seated) (hk : Item.keeps h w.thread.stack = true) (target : Ref)
    (out : Option Outgoing) :
    Motion L (.object target :: (out.map Outgoing.tokens).getD []) w []
      (w.driveSuspended h target out) := by
  rcases hn : w.nextLive h target with ⟨next, v⟩
  have hs : Item.keeps h v.thread.stack = true := by
    rw [stack_of_nextLive hn]
    exact hk
  unfold World.driveSuspended
  rw [hn]
  split
  · exact refl.retarget hw hk fun k => by simp [Outgoing.tokens]
  · rename_i p
    have hm : Motion L (.object target :: p.tokens) _ _ _ := nextLive (.inl hk) hn
    refine hm.retarget hw hs fun k => ?_
    simp only [tokens_exitToEmpty, List.count_cons]
    omega
  · have hm : Motion L [.object target] _ _ _ := nextLive (.inl hk) hn
    refine hm.retarget hw hs fun k => ?_
    simp [Payload.tokens, List.count_cons]
    omega

theorem postResult (hw : w.Seated) (hh : L.hubs h) (f : FiberId) (p : Payload) :
    Motion L p.tokens w [] (w.postResult h f p) := by
  unfold World.postResult
  split
  · exact pushAlone hw (Task.all_isAlone_dropPayload p) (.of_eq fun k _ => by simp)
  · rename_i hn
    have hl : w.hubLives h = true := by
      by_contra hl
      simp [hl] at hn
    have ho : Motion L (_ ++ []) w _ _ := post hh (hub_lt_of_lives hl) (.result p)
    rw [List.append_nil, List.append_nil] at ho
    exact ho.pushing hw (Task.all_isAlone_dropOutgoing _) (.of_eq fun k _ => by simp)

end Motion

end Switchyard
