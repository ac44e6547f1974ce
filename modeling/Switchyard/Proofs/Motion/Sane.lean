import Switchyard.Proofs.Motion.Kept
import Switchyard.Proofs.Motion.Registry

/-!
# Motions keep a world sane

In a sane world every reference is covered, what tasks rely on is below them, the hubs list their
greenlets, and each open hub is in the slot of a thread. One motion after another keeps it so.
-/

namespace Switchyard

/-- The stack is that of a thread which is about to shut the hub of its slot. -/
def Item.Closes (h : HubId) (s : List (Item Task)) : Prop :=
  ∃ rest, s = .task (.teardown h) :: .task (.leaveHub h) :: rest

namespace World

variable {w w' : World} {hand hand' : List Token} {r : Ref} {h : HubId}

/-- The hub is in the slot of a thread, or was until another thread that is about to shut it. -/
def Housed (w : World) (h : HubId) : Prop :=
  ∃ i, w.homeAt i = .full h ∨ i ≠ w.active - 1 ∧ Item.Closes h (w.stackAt i)

/-- A world in the middle of a step. -/
structure Sane (hand : List Token) (w : World) : Prop extends Kept hand w where
  named : w.named = .empty
  registry : w.Registry
  housed : ∀ h, (w.hub h).closed = false → w.Housed h

/-- A world between two steps. -/
structure Rested (w : World) : Prop extends Kept [] w where
  named : w.named = .empty
  registry : w.Registry
  housed : ∀ h, (w.hub h).closed = false → w.Housed h ∨ Item.Closes h w.thread.stack

theorem Housed.beside (hh : w.Housed h) (hb : Beside w w') : w'.Housed h := by
  obtain ⟨i, hi⟩ := hh
  refine ⟨i, hi.imp (fun hi => (hb.homeAt i).trans hi) fun ⟨hi, hc⟩ => ⟨hb.active ▸ hi, ?_⟩⟩
  rwa [hb.stackAt i hi]

namespace Sane

/-- The active thread goes on, and hubs stay open or close. -/
theorem update (hs : Sane hand w) (hk : Kept hand' w') (hb : Beside w w') (hr : w'.Registry)
    (hcl : ∀ h, (w'.hub h).closed = false → (w.hub h).closed = false) : Sane hand' w' :=
  ⟨hk, hb.named.trans hs.named, hr, fun h ho => (hs.housed h (hcl h ho)).beside hb⟩

theorem sameHeap (hs : Sane hand w) (hk : Kept hand' w') (hb : Beside w w')
    (hh : w'.hubs = w.hubs) (ho : w'.object? = w.object?) : Sane hand' w' := by
  have hhub (h : HubId) : w'.hub h = w.hub h := by rw [World.hub, hh, World.hub]
  refine hs.update hk hb (hs.registry.same (by rw [hh]) (fun h => ?_) ho) fun h => ?_
  · rw [hhub]
    exact ⟨rfl, rfl⟩
  · rw [hhub]
    exact id

theorem modifyThread (hs : Sane hand w) {f : Thread → Thread}
    (hf : ∀ t, (f t).home = t.home ∧ (f t).parent = t.parent)
    (hk : Kept hand' (w.modifyThread f)) : Sane hand' (w.modifyThread f) :=
  hs.sameHeap hk (.modifyThread hs.seated hf) rfl rfl

/-- A hub changes that goes on listing what it did. -/
theorem modifyHub (hs : Sane hand w) {f : Hub → Hub}
    (hf : ∀ s, (f s).closed = s.closed ∧ (f s).nodes = s.nodes)
    (hk : Kept hand' (w.modifyHub h f)) : Sane hand' (w.modifyHub h f) :=
  hs.update hk (.of_threads rfl rfl rfl) (hs.registry.modifyHub (hf _)) fun k hk => by
    rcases hub_modifyHub_cases (w := w) (h := k) h f with he | ⟨-, he⟩
    · rwa [he] at hk
    · rwa [he, (hf _).1] at hk

/-- An object changes for another that hubs list or not as they did the first. -/
theorem modifyObject (hs : Sane hand w) {f : Object → Object}
    (hf : ∀ o, w.object? r = some o → o.Kin (f o)) (hk : Kept hand' (w.modifyObject r f)) :
    Sane hand' (w.modifyObject r f) :=
  hs.update hk (.of_threads rfl rfl rfl) (hs.registry.modifyObject hf) fun _ => id

theorem modifyGreenlet (hs : Sane hand w) {f : Greenlet → Greenlet}
    (hm : ∀ g, (f g).isMain = g.isMain) (hh : ∀ g, (f g).hub = g.hub)
    (hf : ∀ g, (f g).fiber = none ∨ (f g).fiber = g.fiber ∨ .object r ∈ hand)
    (hk : Kept hand' (w.modifyGreenlet r f)) : Sane hand' (w.modifyGreenlet r f) := by
  refine hs.modifyObject (fun o ho => ?_) hk
  obtain ⟨n, v⟩ := o
  cases v with
  | greenlet g =>
    refine .greenlet (hm g) (hh g) ((hf g).imp_right (.imp_right fun hr => ?_)) fun _ => Iff.rfl
    obtain ⟨o, ho', hpos⟩ := hs.covers.object?_of_mem (K := (·.isCounted = true)) rfl hr
    rw [ho] at ho'
    cases ho'
    exact hpos
  | _ => exact .other rfl rfl

/-- One reference more to what somebody keeps. -/
theorem retain (hs : Sane hand w) (hr : 0 < w.demand (.object r) + hand.count (.object r)) :
    Sane (.object r :: hand) (w.retain r) := by
  refine hs.modifyObject (fun o ho => ?_) (hs.toKept.retain hr)
  have hk := hs.covers (.object r) rfl
  have hn : 0 < o.count := by
    rw [supply_object, count_of_some ho] at hk
    omega
  obtain ⟨n, v⟩ := o
  cases v with
  | greenlet g =>
    exact .greenlet rfl rfl (.inr (.inl rfl)) fun _ => ⟨fun _ => Nat.succ_pos n, fun _ => hn⟩
  | _ => exact .other rfl rfl

end Sane

end World

namespace Effect

open World

variable {w w' : World} {hand hand' : List Token} {r : Ref} {h : HubId}

private theorem makeHome_registry (hr : w.Registry) : w.createHub.2.Registry := by
  obtain ⟨id, hq⟩ := (createHub_quiet w).2
  let s : Hub := { thread := w.active, main := w.heap.size, current := w.heap.size }
  have h₁ : { w with hubs := w.hubs.push s }.Registry := hr.pushHub rfl
  have h₂ := h₁.alloc (v := .greenlet (w.newMain id)) fun g hg => by
    obtain rfl := Value.greenlet.inj hg
    exact ⟨rfl, by simp [newMain]⟩
  have h₃ := h₂.modifyObject (r := w.heap.size) (f := fun o => { o with count := o.count + 1 })
    fun o ho => by
      rw [object?_alloc, if_pos rfl] at ho
      cases ho
      exact .greenlet rfl rfl (.inr (.inl rfl)) fun _ => by simp
  exact h₃.same (by rw [hq.hubs]; rfl) (fun h => by rw [World.hub, hq.hubs]; exact ⟨rfl, rfl⟩)
    (by rw [hq.object?]; rfl)

private theorem makeHome_sane (hs : Sane hand w) (hv : w.thread.home = .vacant) :
    Sane hand (w.createHub.2.modifyThread fun t => { t with home := .full w.createHub.1 }) := by
  have e : Effect .full hand w hand _ := .makeHome hv
  have hw : w.createHub.2.Seated := hs.seated
  have hstk (i : Nat) : (w.createHub.2.modifyThread fun t =>
      { t with home := .full w.createHub.1 }).stackAt i = w.stackAt i := by
    rw [stackAt_modifyThread hw]
    split
    · subst_vars
      exact stack_eq_stackAt w
    · rfl
  have hhome (i : Nat) (hi : i ≠ w.active - 1) : (w.createHub.2.modifyThread fun t =>
      { t with home := .full w.createHub.1 }).homeAt i = w.homeAt i := by
    unfold World.homeAt World.modifyThread
    simp only [Array.getElem?_modify]
    rw [if_neg (show ¬ w.createHub.2.active - 1 = i from Ne.symm hi)]
    rfl
  refine ⟨e.kept hs.toKept, e.named.trans hs.named,
    (makeHome_registry hs.registry).same rfl (fun _ => ⟨rfl, rfl⟩) rfl, fun h ho => ?_⟩
  by_cases hh : h = w.hubs.size
  · refine ⟨w.active - 1, .inl ?_⟩
    have ha := homeAt_active (e.seated hs.seated)
    rw [thread_modifyThread hw] at ha
    exact ha.trans (by rw [hh]; rfl)
  · have hw' : (w.hub h).closed = false := by
      change (w.createHub.2.hub h).closed = false at ho
      obtain ⟨id, hq⟩ := (createHub_quiet w).2
      rw [World.hub, hq.hubs] at ho
      simp only [Array.getElem?_push, if_neg hh] at ho
      exact ho
    obtain ⟨i, hi⟩ := hs.housed h hw'
    refine ⟨i, hi.imp (fun hi => ?_) fun hi => ⟨hi.1, by rw [hstk]; exact hi.2⟩⟩
    rw [hhome i fun he => ?_]
    · exact hi
    · rw [he, homeAt_active hs.seated, hv] at hi
      cases hi

private theorem create_sane {run : RunFn} {p : Option Ref} {r : Ref}
    (hs : Sane (run.tokens ++ hand) w) (hh : w.Reaches h)
    (hp : ∀ q, p = some q → w.Offers (run.tokens ++ hand) q)
    (hc : w.createGreenlet h run p = (.ok r, w')) : Sane (.object r :: hand) w' := by
  have hk := Effect.kept (.create hh hp hc) hs.toKept
  obtain ⟨hopen, rfl, -, id, hq⟩ := createGreenlet_ok hc
  have hpos : 0 < w.demand (.object (p.getD (w.hub h).current)) +
      (run.tokens ++ hand).count (.object (p.getD (w.hub h).current)) := by
    cases p with
    | none => exact hs.offered (.current hh rfl)
    | some q => exact hs.offered (hp q rfl)
  have hr := (hs.retain hpos).registry.enroll (g := w.newGreenlet h run
    (p.getD (w.hub h).current) id) rfl hopen
  have hsize : (w.retain (p.getD (w.hub h).current)).heap.size = w.heap.size := by
    simp [World.retain, World.modifyObject]
  rw [hsize] at hr
  have hb : Beside w ((((w.retain (p.getD (w.hub h).current)).alloc (.greenlet (w.newGreenlet h run
      (p.getD (w.hub h).current) id))).2.modifyHub h fun s =>
        { s with nodes := w.heap.size :: s.nodes })) := .of_threads rfl rfl rfl
  refine hs.update hk (hb.trans (.of_quiet hq))
    (hr.same (by rw [hq.hubs]; rfl) (fun k => by rw [World.hub, hq.hubs]; exact ⟨rfl, rfl⟩)
      (by rw [hq.object?]; rfl)) fun k hk => ?_
  rw [World.hub, hq.hubs] at hk
  have hk' : ((w.modifyHub h fun s => { s with nodes := w.heap.size :: s.nodes }).hub k).closed =
    false := hk
  rcases hub_modifyHub_cases (w := w) (h := k) h fun s => { s with nodes := w.heap.size :: s.nodes }
    with he | ⟨-, he⟩
  · rwa [he] at hk'
  · rwa [he] at hk'

private theorem spawn_sane (hs : Sane hand w) (steps : List Script.Step) :
    Sane hand (w.spawnStep steps) := by
  have e : Effect .full hand w hand (w.spawnStep steps) := .spawn steps
  have hp : Sane hand (w.push [.join (w.threads.size + 1)]) :=
    hs.modifyThread (fun _ => ⟨rfl, rfl⟩)
      (Effect.kept (.push [.join (w.threads.size + 1)] rfl fun k => by simp [Task.tokens]) hs.toKept)
  have hsize : (w.push [.join (w.threads.size + 1)]).threads.size = w.threads.size := by
    simp [World.push, World.modifyThread]
  have hstk (i : Nat) (hi : i ≠ w.threads.size) :
      (w.spawnStep steps).stackAt i = (w.push [.join (w.threads.size + 1)]).stackAt i := by
    unfold World.stackAt spawnStep
    simp only [Array.getElem?_push, hsize, if_neg hi]
  have hhome (i : Nat) (hi : i ≠ w.threads.size) :
      (w.spawnStep steps).homeAt i = (w.push [.join (w.threads.size + 1)]).homeAt i := by
    unfold World.homeAt spawnStep
    simp only [Array.getElem?_push, hsize, if_neg hi]
  refine ⟨e.kept hs.toKept, e.named.trans hs.named,
    hs.registry.same rfl (fun _ => ⟨rfl, rfl⟩) rfl, fun h ho => ?_⟩
  obtain ⟨i, hi⟩ := hp.housed h ho
  refine ⟨i, hi.imp (fun hi => ?_) fun hi => ?_⟩
  · rw [hhome i fun he => ?_]
    · exact hi
    · rw [World.homeAt, Array.getElem?_eq_none (by omega)] at hi
      cases hi
  · obtain ⟨-, hc⟩ := hi
    have hlt : i ≠ w.threads.size := fun he => by
      rw [World.stackAt, Array.getElem?_eq_none (by omega)] at hc
      obtain ⟨rest, hc⟩ := hc
      cases hc
    refine ⟨by simpa [spawnStep] using hlt, ?_⟩
    rw [hstk i hlt]
    exact hc

theorem sane (e : Effect .full hand w hand' w') (hs : Sane hand w) : Sane hand' w' := by
  induction e with
  | trade h => exact ⟨hs.trade fun k _ => Nat.le_of_eq (h k), hs.named, hs.registry, hs.housed⟩
  | quiet hq => exact hs.sameHeap (hs.quiet hq) (.of_quiet hq) hq.hubs hq.object?
  | trans _ _ ih ih' => exact ih' (ih hs)
  | push ts ht hc =>
    exact hs.modifyThread (fun _ => ⟨rfl, rfl⟩) (Effect.kept (.push ts ht hc) hs.toKept)
  | frame g hg hf =>
    exact hs.modifyThread (fun _ => ⟨rfl, rfl⟩) (Effect.kept (.frame g hg hf) hs.toKept)
  | alloc v hv =>
    exact hs.update (Effect.kept (.alloc v hv) hs.toKept) (.of_threads rfl rfl rfl)
      (hs.registry.alloc fun g hg => by simp [hg, Value.greenlet?] at hv) fun _ => id
  | retain r ho => exact hs.retain (hs.offered ho)
  | tables a b c hc =>
    exact hs.sameHeap (Effect.kept (.tables a b c hc) hs.toKept) (.of_threads rfl rfl rfl) rfl rfl
  | @register hand w f hv =>
    have hb : Beside w (w.alloc (.failure f)).2 := .of_threads rfl rfl rfl
    exact hs.update (Effect.kept (.register f hv) hs.toKept)
      (hb.trans (.modifyThread (by exact hs.seated) fun _ => ⟨rfl, rfl⟩))
      ((hs.registry.alloc fun g hg => by cases hg).same rfl (fun _ => ⟨rfl, rfl⟩) rfl) fun _ => id
  | take hf hl =>
    exact hs.modifyThread (fun _ => ⟨rfl, rfl⟩) (Effect.kept (.take hf hl) hs.toKept)
  | holdHub h hh => exact hs.modifyHub (fun _ => ⟨rfl, rfl⟩) (Effect.kept (.holdHub h hh) hs.toKept)
  | makeHome hv => exact makeHome_sane hs hv
  | create hh hp hc => exact create_sane hs hh hp hc
  | @setParent hand w w' r p old hr hp hsp hl =>
    have hk := Effect.kept (.setParent hr hp hsp hl) hs.toKept
    obtain ⟨-, -, rfl⟩ := setParent_ok hsp
    exact (hs.retain (hs.offered hp)).modifyGreenlet (fun _ => rfl) (fun _ => rfl)
      (fun _ => .inr (.inl rfl)) hk
  | call p hh ht hu hc =>
    exact hs.modifyThread (fun _ => ⟨rfl, rfl⟩) (Effect.kept (.call p hh ht hu hc) hs.toKept)
  | collect name d hh =>
    exact hs.modifyThread (fun _ => ⟨rfl, rfl⟩) (Effect.kept (.collect name d hh) hs.toKept)
  | spawn steps => exact spawn_sane hs steps
  | @fail hand w p =>
    have hb : Beside w (w.push [.fail p]) := .push hs.seated _
    exact hs.sameHeap (Effect.kept (.fail p) hs.toKept)
      (hb.trans (.modifyThread ((seated_modifyThread _).mpr hs.seated) fun _ => ⟨rfl, rfl⟩)) rfl rfl

end Effect

namespace World.Sane

variable {w : World} {hand hand' : List Token} {r : Ref} {h : HubId}

/-- An open hub has an owner. -/
theorem owned (hs : Sane hand w) (ho : (w.hub h).closed = false) : 0 < w.demand (.hub h) := by
  obtain ⟨i, hi | ⟨-, rest, hi⟩⟩ := hs.housed h ho
  · unfold World.homeAt at hi
    cases ht : w.threads[i]? with
    | none => simp [ht] at hi
    | some t =>
      rw [ht] at hi
      exact Covered.demand_of_home ht hi
  · unfold World.stackAt at hi
    cases ht : w.threads[i]? with
    | none => simp [ht] at hi
    | some t =>
      rw [ht] at hi
      refine Covered.demand_of_thread ht ?_
      change t.stack = _ at hi
      simp [Thread.tokens, hi, Item.tokens, Task.tokens]

theorem lives (hs : Sane hand w) (ho : (w.hub h).closed = false) : w.hubLives h = true := by
  have hp := hs.owned ho
  obtain ⟨-, -, hl⟩ := hs.covers.hub_of_demand (K := (·.isCounted = true)) (h := h) rfl (by omega)
  simpa [hubLives] using hl

private theorem release {o : Object} (hs : Sane (.object r :: hand) w) (ho : w.object? r = some o)
    (h : 1 < o.count) : Sane hand (w.unref r) := by
  refine hs.modifyObject (fun o' ho' => ?_) (hs.toKept.release ho h)
  obtain rfl : o = o' := Option.some.inj (ho.symm.trans ho')
  obtain ⟨n, v⟩ := o
  cases v with
  | greenlet g =>
    have : 1 < n := h
    exact .greenlet rfl rfl (.inr (.inl rfl)) fun _ => by dsimp only; omega
  | _ => exact .other rfl rfl

theorem bury {o : Object} (hs : Sane (.object r :: hand) w) (ho : w.object? r = some o)
    (h : o.count ≤ 1) (hm : ∀ g, o.value = .greenlet g → g.isMain = true) :
    Sane (.grave r :: hand) (w.unref r) := by
  refine hs.modifyObject (fun o' ho' => ?_) (hs.toKept.unref ho h)
  obtain rfl : o = o' := Option.some.inj (ho.symm.trans ho')
  obtain ⟨n, v⟩ := o
  cases v with
  | greenlet g =>
    exact .greenlet rfl rfl (.inr (.inl rfl)) fun hn => absurd (hm g rfl) (by simp [hn])
  | _ => exact .other rfl rfl

private theorem retire {n : Nat} {g : Greenlet} (hs : Sane (.object r :: hand) w)
    (ho : w.object? r = some ⟨n, .greenlet g⟩) (h : n ≤ 1) (hf : g.fiber = none)
    (hk : Kept hand' (if w.hubLives g.hub then (w.unref r).forget g.hub r else w.unref r)) :
    Sane hand' (if w.hubLives g.hub then (w.unref r).forget g.hub r else w.unref r) := by
  have hr := hs.registry.retire ho h hf fun hl => by
    by_contra hn
    rw [hs.lives (by simpa using hn)] at hl
    cases hl
  refine hs.update hk (.of_threads ?_ ?_ ?_) hr fun k hk => ?_
  · split <;> rfl
  · split <;> rfl
  · split <;> rfl
  · split at hk
    · rcases hub_modifyHub_cases (w := w.unref r) (h := k) g.hub fun s =>
        { s with nodes := s.nodes.erase r } with he | ⟨-, he⟩
      · unfold forget at hk
        rwa [he] at hk
      · unfold forget at hk
        rwa [he] at hk
    · exact hk

private theorem restore {o : Object} {v : Value} (hs : Sane (.object r :: hand) w)
    (ho : w.object? r = some o) (h : o.count ≤ 1)
    (hv : v = o.value ∨ o.value.greenlet? = none ∧ v.greenlet? = none) :
    Sane (.object r :: hand) (w.modifyObject r fun _ => ⟨1, v⟩) := by
  have hpos : 0 < o.count := by
    obtain ⟨o', ho', hp⟩ := hs.covers.object?_of_mem (r := r) (K := (·.isCounted = true)) rfl
      (by simp)
    rw [ho] at ho'
    cases ho'
    exact hp
  refine hs.modifyObject (fun o' ho' => ?_) (hs.toKept.restore ho h hv)
  obtain rfl : o = o' := Option.some.inj (ho.symm.trans ho')
  rcases hv with rfl | ⟨h₁, h₂⟩
  · obtain ⟨n, v⟩ := o
    cases v with
    | greenlet g => exact .greenlet rfl rfl (.inr (.inl rfl)) fun _ => by simpa using hpos
    | _ => exact .other rfl rfl
  · exact .other h₁ h₂

private theorem vacate (hs : Sane hand w) (hv : w.thread.home.get? = none)
    (hk : Kept hand (w.modifyThread fun t => { t with home := .gone })) :
    Sane hand (w.modifyThread fun t => { t with home := .gone }) := by
  have hstk (i : Nat) :
      (w.modifyThread fun t => { t with home := .gone }).stackAt i = w.stackAt i := by
    rw [stackAt_modifyThread hs.seated]
    split
    · subst_vars
      exact stack_eq_stackAt w
    · rfl
  refine ⟨hk, hs.named, hs.registry.same rfl (fun _ => ⟨rfl, rfl⟩) rfl, fun h ho => ?_⟩
  obtain ⟨i, hi⟩ := hs.housed h ho
  refine ⟨i, hi.imp (fun hi => ?_) fun hi => ⟨hi.1, by rw [hstk]; exact hi.2⟩⟩
  have hne : w.active - 1 ≠ i := fun he => by
    rw [← he, homeAt_active hs.seated] at hi
    rw [hi] at hv
    cases hv
  unfold World.homeAt World.modifyThread
  simp only [Array.getElem?_modify, if_neg hne]
  exact hi

private theorem close (hs : Sane hand w) (h : HubId) :
    Sane hand (w.modifyHub h fun s => { s with closed := true, nodes := [] }) := by
  refine hs.update (hs.toKept.close h) (.of_threads rfl rfl rfl) (hs.registry.close h)
    fun k hk => ?_
  rcases hub_modifyHub_cases (w := w) (h := k) h fun s => { s with closed := true, nodes := [] }
    with he | ⟨-, he⟩
  · rwa [he] at hk
  · rw [he] at hk
    cases hk

theorem names (hs : Sane hand w) {a : Table HubId} (ha : a.entries.Sublist w.named.entries) :
    a = w.named := by
  rw [hs.named] at ha ⊢
  obtain ⟨l, hl⟩ := a
  obtain rfl := List.sublist_nil.mp ha
  rfl

end World.Sane

namespace Motion

open World

variable {w w' : World} {hand hand' : List Token} {r : Ref} {h : HubId}

/-- Motions keep a sane world sane. -/
theorem sane (m : Motion .full hand w hand' w') (hs : Sane hand w) : Sane hand' w' := by
  induction m with
  | script e => exact e.sane hs
  | trade h =>
    exact ⟨hs.trade fun k hk => h.le_of_isCounted hk, hs.named, hs.registry, hs.housed⟩
  | trans _ _ ih ih' => exact ih' (ih hs)
  | lock l =>
    exact hs.sameHeap (Motion.kept (.lock l) hs.toKept) (.of_threads rfl rfl rfl) rfl rfl
  | control hf hsp hc hx =>
    exact hs.sameHeap (Motion.kept (.control hf hsp hc hx) hs.toKept) (.setControl hs.seated _)
      rfl rfl
  | retain r hb => exact hs.retain (hs.backed hb)
  | release _ ho h => exact hs.release ho h
  | bury hd ho h hm =>
    exact { hs.bury ho h hm with toKept := Motion.kept (.bury hd ho h hm) hs.toKept }
  | retire hd ho h hm hf => exact hs.retire ho h hf (Motion.kept (.retire hd ho h hm hf) hs.toKept)
  | restore _ ho h hv => exact hs.restore ho h hv.greenlet?
  | clear r =>
    exact hs.modifyGreenlet (fun _ => rfl) (fun _ => rfl) (fun _ => .inl rfl) hs.clear
  | empty r h => exact ⟨hs.mint rfl, hs.named, hs.registry, hs.housed⟩
  | erase r =>
    exact hs.update (Motion.kept (.erase r) hs.toKept) (.of_threads rfl rfl rfl)
      (hs.registry.erase (hs.count_of_grave (by simp))) fun _ => id
  | greenlet hg hst hf hp hc h₀ =>
    exact hs.modifyGreenlet (fun g => (hst g).isMain) (fun g => (hst g).hub) hf
      (Motion.kept (.greenlet hg hst hf hp hc h₀) hs.toKept)
  | hub hh hst hc h₀ =>
    exact hs.modifyHub (fun s => ⟨(hst s).closed, (hst s).nodes⟩)
      (Motion.kept (.hub hh hst hc h₀) hs.toKept)
  | send hh => exact hs.modifyHub (fun _ => ⟨rfl, rfl⟩) (Motion.kept (.send hh) hs.toKept)
  | current hh he ht => exact hs.modifyHub (fun _ => ⟨rfl, rfl⟩) (hs.current he)
  | names a ha hc =>
    have hk := Motion.kept (.names a ha hc) hs.toKept
    obtain rfl := hs.names ha
    exact { hs with toKept := hk }
  | expire => exact hs.modifyThread (fun _ => ⟨rfl, rfl⟩) (Motion.kept .expire hs.toKept)
  | vacate hv => exact hs.vacate hv (Motion.kept (.vacate hv) hs.toKept)
  | hold _ hl => exact hs.modifyHub (fun _ => ⟨rfl, rfl⟩) (hs.hold hl)
  | leave => exact hs.modifyHub (fun _ => ⟨rfl, rfl⟩) hs.leave
  | close => exact hs.close _
  | dispose => exact hs.modifyHub (fun _ => ⟨rfl, rfl⟩) hs.dispose

end Motion

end Switchyard
