import Switchyard.Proofs.Lock.Depth

/-!
# Tasks that move stacks

What each task that starts, leaves, ends or unwinds a fiber does to the count of destructions.
-/

namespace Switchyard

open World

namespace Locked

variable {w w' : World} {home : FiberId → ThreadId} {n : Nat}

theorem after (h : Locked home 0 w) (ht : Tame w w') : Locked home 0 w' := h.tame ht (.inl rfl)

theorem fail (h : Locked home 0 w) (p : Panic) : Locked home 0 (w.fail p) :=
  h.after (.fail h.manned.seated p)

theorem push_append (w : World) (ts us : List Task) : w.push (ts ++ us) = (w.push us).push ts := by
  simp only [World.push, World.modifyThread, World.mk.injEq, and_true, true_and]
  apply Array.ext_getElem?
  intro i
  simp only [Array.getElem?_modify]
  split
  · cases w.threads[i]? <;> simp
  · rfl

theorem push_setControl (w : World) (ts : List Task) (c : Control Task) :
    (w.push ts).setControl c = w.setControl c := by
  simp only [World.setControl, World.push, World.modifyThread, World.mk.injEq, and_true, true_and]
  apply Array.ext_getElem?
  intro i
  simp only [Array.getElem?_modify]
  split
  · cases w.threads[i]? <;> simp
  · rfl

theorem pushFiber (h : Locked home 0 w) {t : Task} {l : List Task} {f : FiberId}
    (hf : f < w.fibers.size) (hi : home f = w.active) (hl : l.all Task.isLight = true)
    (ht : t.fibers = [f]) (hu : t.isUnlock = false) (hp : t.pins = []) :
    Locked home 0 (w.push (t :: l)) := by
  obtain ⟨h₁, h₂, h₃⟩ := Item.light_map hl
  refine h.push (fun g hg => ?_) (by simp [hp, h₃]) (by simp [hu, h₁])
  obtain rfl : g = f := by simpa [ht, h₂] using hg
  exact ⟨hf, hi⟩

theorem releaseHook (h : Locked home 0 w) (r : Ref) : Locked home 0 (w.releaseHook r) := by
  have hk : Tame w (w.modifyObject r fun o => { o with count := 1 }) := .setCount r fun _ => rfl
  unfold World.releaseHook
  simp only
  split
  · refine Locked.pushLight ?_ rfl
    split
    · exact h.after (.modifyHub _ _)
    · exact h
  · split
    · exact ((h.after (.write _ _)).abandonStack r).pushLight rfl
    · split
      · exact (((h.after ((Tame.write _ _).trans (.modifyHub _ _))).abandonStack r).after
          (.modifyHub _ _)).pushLight rfl
      · split
        · exact h.after ((hk.trans (.write _ _)).trans (.modifyHub _ _))
        · split
          · exact (h.after (hk.trans (.modifyHub _ _))).pushLight rfl
          · exact h.after (hk.trans (.defer _ _))

theorem lastDropped (h : Locked home 0 w) (r : Ref) (v : Value) :
    Locked home 0 (w.lastDropped r v) := by
  unfold World.lastDropped
  split
  · split
    · exact h.pushLight rfl
    · exact h.releaseHook r
  · rename_i name lives
    have hm : Tame w (w.modifyObject r fun _ => ⟨1, .phoenix name lives⟩) :=
      .modifyObject r fun _ _ _ _ hg _ => by cases hg
    have hb (v : World) : Tame v (v.bindObject name (some r)).2 :=
      ⟨rfl, rfl, rfl, fun _ => .refl _, fun _ _ h => h, (·.of_eq rfl rfl)⟩
    have he := (hm.trans (.of_quiet (.event "revive" [.text name, .nat lives]))).trans (hb _)
    exact (h.after he).pushLight (Task.all_isLight_toList_drop _)
  · exact h.pushLight rfl

theorem drop (h : Locked home 0 w) (r : Ref) : Locked home 0 (w.drop r) := by
  unfold World.drop
  split
  · exact h
  · have hm := h.after (.setCount r (f := fun o => { o with count := o.count - 1 }) fun _ => rfl)
    simp only
    split
    · exact hm.lastDropped r _
    · exact hm

theorem release (h : Locked home 0 w) (i : HubId) (r : Ref) : Locked home 0 (w.release i r) := by
  have h₁ := h.after (.unpin r (f := fun g => { g with state := .dead, fiber := none })
    fun _ => rfl)
  unfold World.release
  simp only
  split
  · exact h₁.pushLight rfl
  · rename_i p hp
    have h₂ := h₁.after (.modifyHub i fun s => { s with releasing := true })
    split
    · exact h₂.pushLight rfl
    · rename_i f hg
      obtain ⟨ho, rfl⟩ := Pinned.get?_eq_some_iff.mp hg
      obtain ⟨hf, hi⟩ := h.pins r p hp
      have h₃ := h₂.after (.write .debug ("greenlet " ++ (w.greenlet r).id.text ++
        ": unwinding stack"))
      exact (h₃.pushFiber hf (hi.trans ho) rfl rfl rfl rfl).unwind hf (hi.trans ho)

theorem settle (h : Locked home n w) (f : FiberId) : Locked home n (w.modifyFiber f Fiber.settle) :=
  h.modifyFiber f fun _ => rfl

private theorem shutGreenlet (h : Locked home 0 w) (r : Ref) :
    Locked home 0 (w.shutGreenlet r).2.2 ∧
      (w.shutGreenlet r).2.1.all Task.isLight = true := by
  refine ⟨(h.abandonStack r).after (.modifyGreenlet r fun _ h => h), ?_⟩
  change (_ ++ _ : List Task).all Task.isLight = true
  rw [List.all_append, Task.all_isLight_getD_dropRun, Task.all_isLight_getD_dropPayload]
  rfl

private theorem shutAll (rs : List Ref) {x : Nat × List Task × World}
    (h : Locked home 0 x.2.2) (hl : x.2.1.all Task.isLight = true) :
    Locked home 0 (rs.foldl World.shutNext x).2.2 ∧
      (rs.foldl World.shutNext x).2.1.all Task.isLight = true := by
  induction rs generalizing x with
  | nil => exact ⟨h, hl⟩
  | cons r rs ih =>
    obtain ⟨h₁, h₂⟩ := h.shutGreenlet r
    have ht : (x.2.1 ++ (World.shutGreenlet r x.2.2).2.1).all Task.isLight = true := by
      rw [List.all_append, hl, h₂]
      rfl
    exact ih h₁ ht

theorem teardown (h : Locked home 0 w) (i : HubId) : Locked home 0 (w.teardown i) := by
  unfold World.teardown
  simp only
  split
  · exact h
  · have h₁ := h.after (.modifyHub i fun s => { s with closed := true, nodes := [] })
    obtain ⟨h₂, h₃⟩ := shutAll (w.hub i).nodes
      (x := (0, [], w.modifyHub i fun s => { s with closed := true, nodes := [] })) h₁ rfl
    refine (h₂.after (.modifyHub _ _)).pushLight ?_
    rw [List.all_append, h₃]
    rfl

private theorem greenletParts_map (g : Greenlet) :
    Item.marks ((greenletParts g).map .task) = 0 ∧
      Item.fibers ((greenletParts g).map .task) = [] ∧
      Item.pins ((greenletParts g).map .task) = g.fiber.toList := by
  obtain ⟨m₁, f₁, p₁⟩ := Item.light_map (Task.all_isLight_getD_dropRun g.run)
  obtain ⟨m₂, f₂, p₂⟩ := Item.light_map (Task.all_isLight_getD_dropPayload g.inbox)
  obtain ⟨m₃, f₃, p₃⟩ := Item.light_map (Task.all_isLight_toList_drop g.parent)
  have h (o : Option (Pinned FiberId)) : Item.marks ((o.map Task.dropPinned).toList.map .task) = 0 ∧
      Item.fibers ((o.map Task.dropPinned).toList.map .task) = [] ∧
      Item.pins ((o.map Task.dropPinned).toList.map .task) = o.toList := by
    cases o with
    | none => exact ⟨rfl, rfl, rfl⟩
    | some p => exact ⟨rfl, rfl, rfl⟩
  obtain ⟨m₄, f₄, p₄⟩ := h g.fiber
  simp only [greenletParts, List.map_append, Item.marks_append, Item.fibers_append,
    Item.pins_append, m₁, m₂, m₃, m₄, f₁, f₂, f₃, f₄, p₁, p₂, p₃, p₄]
  simp

theorem destroy (h : Locked home 0 w) (hl : w.canLock = true) (r : Ref) :
    Locked home 0 (w.destroy r) := by
  obtain ⟨l, hl⟩ := Option.isSome_iff_exists.mp hl
  have h₁ := h.lock hl
  unfold World.destroy
  simp only [hl, Option.getD_some]
  split
  · exact h₁.push (by simp [Task.fibers]) (by simp [Task.pins]) (by simp [Task.isUnlock])
  · refine (h₁.tame (.of_quiet (.event _ _)) (.inr ?_)).push (by simp [Task.fibers])
      (by simp [Task.pins]) (by simp [Task.isUnlock])
    exact (Quiet.event _ _).active
  · rename_i g hv
    obtain ⟨hm, hf, hp⟩ := greenletParts_map g
    have hg : w.greenlet r = g := by
      have : w.valueD r = .greenlet g := hv
      simp [World.greenlet, this]
    have h₂ := h₁.tame (.unpin r (f := fun g =>
      { g with parent := none, run := none, fiber := none, inbox := none }) fun _ => rfl)
      (.inr rfl)
    refine h₂.push ?_ ?_ ?_
    · simp [hf, Task.fibers]
    · intro p hmem
      refine h.pins r p ?_
      simpa [hp, hg, Task.pins] using hmem
    · simp [hm, Task.isUnlock]
  · exact h₁.push (by simp [Task.fibers]) (by simp [Task.pins]) (by simp [Task.isUnlock])

theorem reclaim (h : Locked home 1 w) (r : Ref) : Locked home 0 (w.reclaim r) :=
  (h.tame (.erase r) (.inr rfl)).unlock

theorem switchFromFiber (h : Locked home 0 w) (i : HubId) (target : Ref) (p : Payload) :
    Locked home 0 (w.switchFromFiber i target p) := by
  unfold World.switchFromFiber
  simp only
  split
  · refine (h.after (.raise h.manned _)).pushLight ?_
    rw [List.all_append, Task.all_isLight_dropPayload]
    rfl
  · rename_i f hg
    obtain ⟨q, hq, hg⟩ := Option.bind_eq_some_iff.mp hg
    obtain ⟨ho, rfl⟩ := Pinned.get?_eq_some_iff.mp hg
    obtain ⟨hf, hi⟩ := h.pins _ q hq
    rw [push_append]
    have h₁ := h.after (.modifyHub i fun s => { s with outgoing := some (.switch target p) })
    exact (h₁.pushFiber hf (hi.trans ho) rfl rfl rfl rfl).pushLight
      (Task.all_isLight_dropOutgoing _)

theorem switch (h : Locked home 0 w) (i : HubId) (target : Ref) (p : Payload) :
    Locked home 0 (w.switch i target p) := by
  unfold World.switch
  split
  · refine (h.after (.raise h.manned _)).pushLight ?_
    rw [List.all_append, Task.all_isLight_dropPayload]
    rfl
  · simp only
    split
    · have h₁ := h.after (.write .trace ("greenlet " ++ (w.greenlet target).id.text ++
        ": switch to self"))
      exact h₁.after (.deliver h₁.manned.seated p)
    · have h₁ := h.after (.retain target)
      split
      · exact h₁.switchFromFiber i target p
      · exact h₁.pushLight rfl

theorem suspend (h : Locked home 0 w) (i : HubId) (f : FiberId) :
    Locked home 0 (w.suspend i f) := by
  unfold World.suspend
  split
  · have h₁ : Locked home 0 (w.push [.resumed i]) := h.pushLight rfl
    split
    · rename_i c hc
      rw [← push_setControl w [.resumed i] c]
      exact h₁.setControl_self (h₁.good.suspend hc)
    · exact h.fail _
  · refine (h.after (.modifyHub i fun s => { s with outgoing := none })).pushLight ?_
    rw [List.all_append, Task.all_isLight_dropOutgoing]
    rfl

end Locked

end Switchyard
