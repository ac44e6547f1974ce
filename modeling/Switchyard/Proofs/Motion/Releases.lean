import Switchyard.Proofs.Motion.Drops

/-!
# Releases in motion

Releasing stacks, draining the queues of a hub and shutting a hub are sequences of motions, but for
the step that closes the hub.
-/

namespace Switchyard

open World

namespace Motion

variable {L : Licence} {w w' : World} {hand hand' : List Token} {r : Ref} {h : HubId}

theorem releaseStack (hw : w.Seated) (hh : L.hubs h) (hr : L.greenlets r)
    (hf : ∀ f, w.ownFiber r = some f → L.fibers f) :
    Motion L [.object r, .sole r] w [] (w.release h r) := by
  have hm : Motion L [.object r, .sole r] w [.object r]
      (w.modifyGreenlet r fun g => { g with state := .dead, fiber := none }) := by
    have hg : Motion L [.object r, .sole r] w [.object r, .sole r]
        (w.modifyGreenlet r fun g => { g with state := .dead, fiber := none }) :=
      greenletQuiet hr (fun _ => ⟨rfl, rfl, rfl, rfl⟩) (fun _ => .inl rfl) fun _ => ⟨rfl, rfl, rfl⟩
    exact hg.trading (.of_eq fun k hk => by
      cases k with
      | sole | fiber => cases hk
      | _ => simp [List.count_cons])
  unfold World.release
  simp only
  split
  · exact hm.pushing hw rfl (.of_eq fun k _ => by simp [Task.tokens])
  · rename_i p hp
    have hr := hm.trans (hubQuiet (h := h) (f := fun s => { s with releasing := true }) hh
      (fun _ => ⟨rfl, rfl, rfl, rfl, rfl, rfl, rfl⟩) fun _ => rfl)
    split
    · exact hr.pushing hw rfl (.of_eq fun k _ => by simp [Task.tokens])
    · rename_i f hg
      have hf : L.fibers f := hf f (by rw [World.ownFiber, hp]; exact hg)
      have hd := hr.trans (write .debug
        ("greenlet " ++ (w.greenlet r).id.text ++ ": unwinding stack"))
      have hp : Motion L [.object r, .sole r] w [] _ :=
        hd.pushing hw (l := [.unshare f, .released h r]) rfl (.of_eq fun k hk => by
          cases k with
          | sole | fiber => cases hk
          | _ => simp [Task.tokens, List.count_cons])
      exact hp.trans (unwind (hp.seated hw) hf)

theorem takeOutgoing (hh : L.hubs h) {f : Hub → Hub} (hs : ∀ s : Hub, s.Stays (f s))
    (ho : ∀ s, (f s).outgoing = none ∧ (f s).deferred = s.deferred ∧ (f s).foreign = s.foreign) :
    Motion L hand w (((w.hub h).outgoing.map Outgoing.tokens).getD [] ++ hand) (w.modifyHub h f) := by
  have hcount (s : Hub) (k : Token) : (f s).tokens.count k +
      ((s.outgoing.map Outgoing.tokens).getD []).count k = s.tokens.count k := by
    obtain ⟨h₁, h₂, h₃⟩ := ho s
    simp only [Hub.tokens, h₁, h₂, h₃, (hs s).disposed, (hs s).main, (hs s).current,
      Option.map_none, Option.getD_none, List.append_nil, List.count_append]
    omega
  refine modifyHub hh hs (.inr fun s h₀ => ?_) (.of_eq fun k _ => ?_)
  · refine List.eq_nil_iff_forall_not_mem.mpr fun k hk => ?_
    have := hcount s k
    have := List.count_pos_iff.mpr hk
    rw [h₀, List.count_nil] at *
    omega
  · have := hcount (w.hub h) k
    rw [List.count_append]
    omega

theorem released (hw : w.Seated) (hh : L.hubs h) (r : Ref) :
    Motion L [.object r] w [] (w.released h r) := by
  have ho : Motion L [.object r] w (((w.hub h).outgoing.map Outgoing.tokens).getD [] ++ [.object r])
      (w.modifyHub h fun s => { s with releasing := false, outgoing := none }) :=
    takeOutgoing hh (fun _ => ⟨rfl, rfl, rfl, rfl, rfl, rfl, rfl⟩) fun _ => ⟨rfl, rfl, rfl⟩
  have hs := ho.trans (modifyStats hh fun s => { s with released := s.released + 1 })
  refine hs.pushing hw ?_ (.of_eq fun k _ => ?_)
  · simp only [List.all_append, Task.all_isAlone_dropOutgoing]
    rfl
  · simp [Task.tokens]

private theorem count_queues (rs : List Ref) {k : Token} (hk : k.isTraded = true) :
    (rs.flatMap Token.queued).count k = (rs.map Token.object).count k := by
  induction rs with
  | nil => rfl
  | cons r rs ih =>
    have := Token.count_queued hk r
    simp only [List.flatMap_cons, List.count_append, List.map_cons, List.count_cons,
      List.count_nil] at this ⊢
    omega

theorem drain (hw : w.Seated) (hh : L.hubs h) : Motion L [] w [] (w.drain h) := by
  unfold World.drain
  simp only
  split
  · exact refl
  · let batch := (w.hub h).deferred ++ (w.hub h).foreign
    have hq : Motion L [] w (batch.flatMap Token.queued)
        (w.modifyHub h fun s => { s with deferred := [], foreign := [] }) := by
      refine modifyHub hh (fun _ => ⟨rfl, rfl, rfl, rfl, rfl, rfl, rfl⟩) (.inr fun s h₀ => ?_)
        (.of_eq fun k _ => ?_)
      · simp only [Hub.tokens, List.append_eq_nil_iff, List.flatMap_nil] at h₀ ⊢
        exact ⟨⟨h₀.1.1, trivial⟩, trivial⟩
      · simp [Hub.tokens, batch]
        omega
    have hs := hq.trans (modifyStats hh fun t => { t with
      deferred := t.deferred + (w.hub h).foreign.length
      drained := t.drained + batch.length })
    split
    · rename_i he
      have he : batch = [] := List.isEmpty_iff.mp he
      exact hs.trading (.of_eq fun k _ => by rw [he]; rfl)
    · refine hs.pushing hw ?_ (.of_eq fun k _ => ?_)
      · simp [Task.isAlone, Task.guest?]
      · rw [Task.tokensOf_append, Task.tokensOf_releases]
        simp [Task.tokens, batch]

theorem shutGreenlet (hr : L.greenlets r) (hf : ∀ f, w.ownFiber r = some f → L.fibers f) :
    Motion L hand w (Task.tokensOf (w.shutGreenlet r).2.1 ++ hand) (w.shutGreenlet r).2.2 := by
  have ha : Motion L hand w hand (w.abandonStack r).2 := abandonStack hr hf
  refine ha.trans (modifyGreenlet hr (fun _ => ⟨rfl, rfl, rfl, rfl⟩) (fun _ => .inr (.inl rfl))
    (.inr fun g h₀ => ?_) (.inl rfl) (.of_eq fun k _ => ?_))
  · simp only [Greenlet.tokens, List.append_eq_nil_iff, Option.map_none, Option.getD_none] at h₀ ⊢
    exact ⟨⟨⟨h₀.1.1.1, trivial⟩, h₀.1.2⟩, trivial⟩
  · simp only [World.shutGreenlet, Greenlet.tokens, Task.tokensOf_append, List.count_append]
    cases ((w.abandonStack r).2.greenlet r).run <;>
      cases ((w.abandonStack r).2.greenlet r).inbox <;> simp <;> omega

private theorem ownFiber_shutGreenlet {q : Ref} {f : FiberId}
    (hf : (w.shutGreenlet r).2.2.ownFiber q = some f) : w.ownFiber q = some f := by
  have ha : (w.shutGreenlet r).2.2.active = w.active := by
    change (w.abandonStack r).2.active = _
    unfold World.abandonStack
    simp only
    split
    · rfl
    · split <;> rfl
  have hg : (w.shutGreenlet r).2.2.greenlet? q =
      if r = q then (w.greenlet? q).map fun g =>
        { g with state := .dead, fiber := none, run := none, inbox := none } else w.greenlet? q := by
    have hb : (w.abandonStack r).2.greenlet? q = if r = q then (w.greenlet? q).map fun g =>
        { g with state := .dead, fiber := none } else w.greenlet? q := by
      unfold World.abandonStack
      simp only
      split
      · exact greenlet?_modifyGreenlet ..
      · split <;> exact greenlet?_modifyGreenlet ..
    change ((w.abandonStack r).2.modifyGreenlet r _).greenlet? q = _
    rw [greenlet?_modifyGreenlet, hb]
    split
    · rw [Option.map_map]; rfl
    · rfl
  unfold World.ownFiber at *
  rw [ha, greenlet_eq, hg] at hf
  rw [greenlet_eq]
  split at hf
  · cases hw : w.greenlet? q <;> simp [hw, Greenlet.absent] at hf
  · exact hf

private theorem stack_shutGreenlet (hw : w.Seated) (r : Ref) :
    (w.shutGreenlet r).2.2.thread.stack = w.thread.stack ∧
      (w.shutGreenlet r).2.1.all Task.isAlone = true := by
  constructor
  · change (w.abandonStack r).2.thread.stack = w.thread.stack
    unfold World.abandonStack
    simp only
    split
    · rfl
    · split
      · rfl
      · have hw' : (w.modifyGreenlet r fun g => { g with state := .dead, fiber := none }).Seated :=
          hw
        rw [stack_setControl hw']
        exact Control.stack_unshare_abandon
  · simp only [World.shutGreenlet, List.all_append, Task.all_isAlone_getD_dropRun,
      Task.all_isAlone_getD_dropPayload, Bool.and_self]

private theorem shutAll (rs : List Ref) {n : Nat} {l : List Task} (hw : w.Seated)
    (hr : ∀ r ∈ rs, L.greenlets r ∧ ∀ f, w.ownFiber r = some f → L.fibers f)
    (hd : l.all Task.isAlone = true) :
    Motion L (Task.tokensOf l ++ hand) w
        (Task.tokensOf (rs.foldl shutNext (n, l, w)).2.1 ++ hand)
        (rs.foldl shutNext (n, l, w)).2.2 ∧
      (rs.foldl shutNext (n, l, w)).2.1.all Task.isAlone = true ∧
      (rs.foldl shutNext (n, l, w)).2.2.thread.stack = w.thread.stack := by
  induction rs generalizing n l w with
  | nil => exact ⟨refl, hd, rfl⟩
  | cons r rs ih =>
    obtain ⟨hg, hf⟩ := hr r List.mem_cons_self
    have hm : Motion L (Task.tokensOf l ++ hand) w _ _ := shutGreenlet hg hf
    obtain ⟨hs, ha⟩ := stack_shutGreenlet hw r
    obtain ⟨h₁, h₂, h₃⟩ := ih (n := if (w.shutGreenlet r).1 then n + 1 else n)
      (l := l ++ (w.shutGreenlet r).2.1) (hm.seated hw)
      (fun q hq => ⟨(hr q (List.mem_cons_of_mem _ hq)).1, fun f hf =>
        (hr q (List.mem_cons_of_mem _ hq)).2 f (ownFiber_shutGreenlet hf)⟩)
      (by rw [List.all_append, hd, ha]; rfl)
    refine ⟨(hm.trading (.of_eq fun k _ => ?_)).trans h₁, h₂, h₃.trans hs⟩
    simp only [Task.tokensOf_append, List.count_append]
    omega

theorem shutting (hw : w.Seated) (hk : Item.keeps h w.thread.stack = true) (hh : L.hubs h)
    (hr : ∀ r ∈ (w.hub h).nodes, L.greenlets r ∧ ∀ f, w.ownFiber r = some f → L.fibers f)
    (ho : (w.hub h).closed = false) :
    Motion L [] (w.modifyHub h fun s => { s with closed := true, nodes := [] }) []
      (w.teardown h) := by
  have hw' : (w.modifyHub h fun s => { s with closed := true, nodes := [] }).Seated := hw
  unfold World.teardown
  simp only [ho, Bool.false_eq_true, if_false]
  obtain ⟨h₁, h₂, h₃⟩ : Motion L (Task.tokensOf [] ++ []) _ _ _ ∧ _ ∧ _ :=
    shutAll (n := 0) (w.hub h).nodes hw' hr rfl
  have hs := h₁.trans (modifyStats hh fun s => { s with
    abandoned := s.abandoned + ((w.hub h).nodes.foldl shutNext
      (0, [], w.modifyHub h fun s => { s with closed := true, nodes := [] })).1 })
  refine hs.pushingOn hw' h₂ (.guest (h := h) rfl nofun ?_) (.of_eq fun k _ => by simp [Task.tokens])
  rw [show (World.modifyStats h _ _).thread.stack = _ from h₃]
  exact hk

theorem teardown (hw : w.Seated) (hk : Item.keeps h w.thread.stack = true) (hh : L.hubs h)
    (hr : ∀ r ∈ (w.hub h).nodes, L.greenlets r ∧ ∀ f, w.ownFiber r = some f → L.fibers f) :
    Motion L [] w [] (w.teardown h) := by
  by_cases ho : (w.hub h).closed = true
  · have he : w.teardown h = w := if_pos ho
    rw [he]
    exact refl
  · exact (Motion.close hh).trans (shutting hw hk hh hr (by simpa using ho))

theorem teardownQueues (hw : w.Seated) (n : Nat) (hk : Item.keeps h w.thread.stack = true)
    (hh : L.hubs h) : Motion L [] w [] (w.teardownQueues h n) := by
  have hq : Motion L [] w ((w.hub h).deferred.flatMap Token.queued ++
      (w.hub h).foreign.flatMap Token.queued ++
      ((w.hub h).outgoing.map Outgoing.tokens).getD [])
      (w.modifyHub h fun s => { s with
        deferred := [], foreign := [], outgoing := none, releasing := false,
        runningFiber := false }) := by
    refine modifyHub hh (fun _ => ⟨rfl, rfl, rfl, rfl, rfl, rfl, rfl⟩) (.inr fun s h₀ => ?_)
      (.of_eq fun k _ => ?_)
    · simp only [Hub.tokens, List.append_eq_nil_iff] at h₀
      simp [Hub.tokens, h₀.1.1.1]
    · simp [Hub.tokens]
      omega
  refine hq.pushingOn hw ?_ (.guest (h := h) rfl (by simp) hk) (.of_eq fun k hk' => ?_)
  · rw [List.all_append, Task.all_isAlone_map_drop, Task.all_isAlone_dropOutgoing]
    rfl
  · have h₁ := count_queues (w.hub h).deferred hk'
    have h₂ := count_queues (w.hub h).foreign hk'
    rw [Task.tokensOf_append, Task.tokensOf_append, Task.tokensOf_map_drop, List.map_append,
      Task.tokensOf_dropOutgoing]
    simp only [List.count_append, Task.tokensOf_cons, Task.tokens,
      Task.tokensOf_nil, List.count_nil, List.append_nil]
    omega

theorem teardownCurrent (hw : w.Seated) (n : Nat) (hk : Item.keeps h w.thread.stack = true)
    (hh : L.hubs h) : Motion L [] w [] (w.teardownCurrent h n) := by
  have he : w.Enters h := .inl hk
  have h₁ : Motion L [] w [.object (w.hub h).main] (w.retain (w.hub h).main) :=
    .retain _ (.main he rfl)
  have h₂ : Motion L [] w [.object (w.hub h).main, .object (w.hub h).main]
      ((w.retain (w.hub h).main).retain (w.hub h).main) := h₁.trans (.retain _ (.main (h := h) he rfl))
  have h₃ : Motion L [] w [.object (w.hub h).current, .object (w.hub h).main]
      (((w.retain (w.hub h).main).retain (w.hub h).main).modifyHub h fun s =>
        { s with current := (w.hub h).main }) := h₂.trans (.current hh he (.inr rfl))
  have he : ((w.retain (w.hub h).main).retain (w.hub h).main).modifyHub h (fun s =>
        { s with current := (w.hub h).main }) =
      ((w.retain (w.hub h).main).retain (w.hub h).main).modifyHub h fun s =>
        { s with current := s.main } := modifyHub_congr rfl
  rw [he] at h₃
  exact h₃.pushing hw rfl (.of_eq fun k _ => by simp [Task.tokens, List.count_cons])

theorem teardownEnd (hw : w.Seated) {main : Ref} (hr : L.greenlets main) (n : Nat) :
    Motion L [.object main] w [] (w.teardownEnd h main n) := by
  have hs : Motion L [.object main] w [.object main] _ := (setState hr .dead).trans (write .debug
    ("thread state for " ++ threadName (w.hub h).thread ++ " torn down, " ++ toString n ++
      " stacks abandoned"))
  exact hs.pushing hw rfl (.of_eq fun k _ => by simp [Task.tokens])

theorem leaveHub (hw : w.Seated) (hh : L.hubs h) : Motion L [.hub h] w [] (w.leaveHub h) := by
  have hl : Motion L [.hub h] w (if (w.hub h).holders ≤ 1 then [.tomb h] else [])
      (w.modifyHub h fun s => { s with holders := s.holders - 1 }) := .leave hh
  unfold World.leaveHub
  simp only
  split
  · refine hl.trading fun k _ => ⟨Nat.zero_le _, fun hk => .inr ?_⟩
    split
    · cases k <;> first | rfl | cases hk
    · rfl
  · rename_i hn
    have hh : (w.hub h).holders ≤ 1 := by
      rcases hub_modifyHub_cases (w := w) (h := h) h fun s => { s with holders := s.holders - 1 }
        with he | ⟨-, he⟩
      · simp only [hubLives, he, decide_eq_true_eq] at hn
        omega
      · simp only [hubLives, he, decide_eq_true_eq] at hn
        omega
    rw [if_pos hh] at hl
    refine hl.trans (push (hl.seated hw) (fun hf => ?_) (.of_eq fun k _ => by simp [Task.tokens]))
    have ht : (Task.teardown h).Sits (.task (.dropHubFields h) :: w.thread.stack) :=
      .guest (h := h) rfl (by simp) (by simp [Item.keeps, Task.keeps])
    exact ⟨ht, .of_isAlone rfl, hf⟩

theorem dropHubFields (hw : w.Seated) (hh : L.hubs h) :
    Motion L [.tomb h] w [] (w.dropHubFields h) := by
  have hd : Motion L [.tomb h] w ({ w.hub h with disposed := false }.tokens ++ []) _ := .dispose hh
  refine hd.pushing hw ?_ (.of_eq fun k hk => ?_)
  · simp only [List.all_append, Task.all_isAlone_dropOutgoing, Task.all_isAlone_map_drop]
    rfl
  · have h₁ := count_queues (w.hub h).deferred.reverse hk
    have h₂ := count_queues (w.hub h).foreign hk
    have h₃ := ((w.hub h).deferred.reverse_perm.flatMap_right Token.queued).count_eq k
    rw [Task.tokensOf_append, Task.tokensOf_append, Task.tokensOf_map_drop, List.map_append,
      Task.tokensOf_dropOutgoing]
    simp only [Hub.tokens, List.count_append, Task.tokensOf_cons, Task.tokens,
      Task.tokensOf_nil, List.count_nil, List.append_nil, Bool.false_eq_true, if_false,
      List.count_cons] at h₃ ⊢
    omega

end Motion

end Switchyard
