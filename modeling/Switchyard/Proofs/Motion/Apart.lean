import Switchyard.Proofs.Facade.Scene
import Switchyard.Proofs.Motion.Aside
import Switchyard.Proofs.Motion.Rooted

/-!
# What others do to a hub

Updates that may not work on a hub still reach it in two ways. They put greenlets of the hub into
its queue, and they drop the last reference to a greenlet without a stack, which the hub then
strikes off. The greenlets of the hub that stay keep all but their places in the tree.
-/

namespace Switchyard

/-- From `o` to `o'` a greenlet of the hub `k` at most moves, if it may, or loses its last
reference. Nothing becomes a greenlet of the hub, and nothing lost comes back. -/
structure Object.Apart (moves : Prop) (k : HubId) (o o' : Object) : Prop where
  unused : o.count = 0 → o'.count = 0
  known : ∀ g', o'.value = .greenlet g' → g'.hub = k → ∃ g, o.value = .greenlet g ∧ g.hub = k
  greenlet : ∀ g, o.value = .greenlet g → g.hub = k → 0 < o.count →
    (o'.count = 0 ∧ (g.isMain = false → g.fiber = none)) ∨
    0 < o'.count ∧ ∃ p, o'.value = .greenlet { g with parent := p } ∧ (p = g.parent ∨ moves)

namespace Object.Apart

variable {moves : Prop} {k : HubId} {o o' : Object}

theorem ofCount (hv : o'.value = o.value) (h₀ : o.count = 0 → o'.count = 0)
    (h₁ : o'.count = 0 → ∀ g, o.value = .greenlet g → 0 < o.count → g.isMain = false →
      g.fiber = none) : o.Apart moves k o' where
  unused := h₀
  known g' hg' hk := ⟨g', hv ▸ hg', hk⟩
  greenlet g hg _ hn := by
    rcases Nat.eq_zero_or_pos o'.count with hz | hp
    · exact .inl ⟨hz, h₁ hz g hg hn⟩
    · exact .inr ⟨hp, g.parent, hv.trans hg, .inl rfl⟩

theorem ofOther (hv : o.value.greenlet? = none) (hv' : o'.value.greenlet? = none)
    (h₀ : o.count = 0 → o'.count = 0) : o.Apart moves k o' where
  unused := h₀
  known g' hg' := by rw [hg'] at hv'; cases hv'
  greenlet g hg := by rw [hg] at hv; cases hv

theorem ofGreenlet {n : Nat} {g g' : Greenlet} (hh : g'.hub = g.hub)
    (hg : g.hub = k → 0 < n → ∃ p, g' = { g with parent := p } ∧ (p = g.parent ∨ moves)) :
    Object.Apart moves k ⟨n, .greenlet g⟩ ⟨n, .greenlet g'⟩ where
  unused h := h
  known u hu hk := by
    obtain rfl : g' = u := by simpa using hu
    exact ⟨g, rfl, hh ▸ hk⟩
  greenlet u hu hk hn := by
    obtain rfl : g = u := by simpa using hu
    obtain ⟨p, rfl, hp⟩ := hg hk hn
    exact .inr ⟨hn, p, rfl, hp⟩

end Object.Apart

namespace World

variable {links : Ref → Prop} {k h : HubId} {w w' w'' : World} {r : Ref}

/-- From `w` to `w'` the hub `k` gets greenlets sent and strikes off greenlets, and its greenlets
move, if they may, or lose their last references. -/
structure Apart (links : Ref → Prop) (k : HubId) (w w' : World) : Prop where
  heap : w.heap.size ≤ w'.heap.size
  hubs : w.hubs.size ≤ w'.hubs.size
  hub : ∃ sent nodes, w'.hub k = { w.hub k with
      foreign := (w.hub k).foreign ++ sent, nodes } ∧ nodes.Sublist (w.hub k).nodes
  unused : ∀ q < w.heap.size, w.count q = 0 → w'.count q = 0
  known : ∀ q g', w'.greenlet? q = some g' → g'.hub = k → ∃ g, w.greenlet? q = some g ∧ g.hub = k
  greenlets : ∀ q g, w.living? q = some g → g.hub = k →
    (w'.count q = 0 ∧ (g.isMain = false → g.fiber = none)) ∨
    ∃ p, w'.living? q = some { g with parent := p } ∧ (p = g.parent ∨ links q)

theorem lt_size_of_living {g : Greenlet} (hg : w.living? r = some g) : r < w.heap.size := by
  obtain ⟨n, -, ho⟩ := living?_eq_some_iff.mp hg
  exact lt_size_of_object? ho

namespace Apart

theorem trans (a : Apart links k w w') (a' : Apart links k w' w'') : Apart links k w w'' where
  heap := Nat.le_trans a.heap a'.heap
  hubs := Nat.le_trans a.hubs a'.hubs
  hub := by
    obtain ⟨sent, nodes, he, hs⟩ := a.hub
    obtain ⟨sent', nodes', he', hs'⟩ := a'.hub
    refine ⟨sent ++ sent', nodes', ?_, (?_ : nodes'.Sublist _).trans hs⟩
    · rw [he', he, ← List.append_assoc]
    · rwa [he] at hs'
  unused q hq h₀ := a'.unused q (Nat.lt_of_lt_of_le hq a.heap) (a.unused q hq h₀)
  known q g hg hk := by
    obtain ⟨g', hg', hk'⟩ := a'.known q g hg hk
    exact a.known q g' hg' hk'
  greenlets q g hg hk := by
    rcases a.greenlets q g hg hk with ⟨h₀, hf⟩ | ⟨p, hp, hl⟩
    · exact .inl ⟨a'.unused q (Nat.lt_of_lt_of_le (lt_size_of_living hg) a.heap) h₀, hf⟩
    · rcases a'.greenlets q _ hp hk with ⟨h₀, hf⟩ | ⟨p', hp', hl'⟩
      · exact .inl ⟨h₀, hf⟩
      · refine .inr ⟨p', hp', ?_⟩
        rcases hl' with hl' | hl'
        · exact hl.imp_left hl'.trans
        · exact .inr hl'

theorem modifyObject {f : Object → Object}
    (hf : ∀ o, w.object? r = some o → o.Apart (links r) k (f o)) :
    Apart links k w (w.modifyObject r f) where
  heap := by simp [World.modifyObject]
  hubs := Nat.le_refl _
  hub := ⟨[], _, by rw [List.append_nil]; rfl, List.Sublist.refl _⟩
  unused q _ h₀ := by
    rw [count_modifyObject]
    split
    · rename_i hq
      subst hq
      cases ho : w.object? r with
      | none => rfl
      | some o =>
        rw [count_of_some ho] at h₀
        exact (hf o ho).unused h₀
    · exact h₀
  known q g' hg hk := by
    obtain ⟨n, ho⟩ := greenlet?_eq_some_iff.mp hg
    rw [object?_modifyObject] at ho
    split at ho
    · subst_vars
      obtain ⟨⟨m, v⟩, ho', he⟩ := Option.map_eq_some_iff.mp ho
      obtain ⟨g, hg, hh⟩ := (hf _ ho').known g' (by rw [he]) rfl
      obtain rfl : v = .greenlet g := hg
      exact ⟨g, greenlet?_eq_some_iff.mpr ⟨m, ho'⟩, hh⟩
    · exact ⟨g', greenlet?_eq_some_iff.mpr ⟨n, ho⟩, hk⟩
  greenlets q g hg hk := by
    obtain ⟨n, hn, ho⟩ := living?_eq_some_iff.mp hg
    have hc := count_modifyObject (w := w) r q f
    have hob := object?_modifyObject (w := w) r q f
    by_cases hq : r = q
    · subst hq
      rw [if_pos rfl, ho] at hc hob
      rcases (hf _ ho).greenlet g rfl hk hn with ⟨h₀, hm⟩ | ⟨hp, p, hv, hl⟩
      · exact .inl ⟨hc.trans h₀, hm⟩
      · refine .inr ⟨p, living?_eq_some_iff.mpr ⟨_, hp, hob.trans ?_⟩, hl⟩
        exact congrArg (fun v => some (Object.mk _ v)) hv
    · rw [if_neg hq] at hob
      exact .inr ⟨g.parent, living?_eq_some_iff.mpr ⟨n, hn, hob.trans ho⟩, .inl rfl⟩

theorem modifyGreenlet {f : Greenlet → Greenlet}
    (hf : ∀ n g, w.object? r = some ⟨n, .greenlet g⟩ → (f g).hub = g.hub ∧ (g.hub = k → 0 < n →
      ∃ p, f g = { g with parent := p } ∧ (p = g.parent ∨ links r))) :
    Apart links k w (w.modifyGreenlet r f) :=
  modifyObject fun o ho => by
    obtain ⟨n, v⟩ := o
    cases v with
    | greenlet g =>
      obtain ⟨h₁, h₂⟩ := hf n g ho
      exact .ofGreenlet h₁ h₂
    | _ => exact .ofOther rfl rfl id

theorem of_eq (hh : w'.hubs = w.hubs) (hp : w'.heap = w.heap) : Apart links k w w' where
  heap := Nat.le_of_eq (by rw [hp])
  hubs := Nat.le_of_eq (by rw [hh])
  hub := ⟨[], _, by rw [List.append_nil, World.hub, hh, World.hub], List.Sublist.refl _⟩
  unused q _ h₀ := by rwa [World.count, World.object?, hp, ← World.object?, ← World.count]
  known q g' hg hk := ⟨g', by rwa [World.greenlet?, World.object?, hp] at hg, hk⟩
  greenlets q g hg _ := by
    refine .inr ⟨g.parent, ?_, .inl rfl⟩
    obtain ⟨n, hn, ho⟩ := living?_eq_some_iff.mp hg
    exact living?_eq_some_iff.mpr ⟨n, hn, by rwa [World.object?, hp]⟩

theorem refl (w : World) : Apart links k w w := of_eq rfl rfl

theorem of_quiet (hq : Quiet w w') : Apart links k w w' := of_eq hq.hubs hq.heap

theorem modifyHub {f : Hub → Hub} (hf : h ≠ k ∨ ∀ s, ∃ sent nodes,
      f s = { s with foreign := s.foreign ++ sent, nodes } ∧ nodes.Sublist s.nodes) :
    Apart links k w (w.modifyHub h f) := by
  have hhub : ∃ sent nodes, (w.modifyHub h f).hub k = { w.hub k with
      foreign := (w.hub k).foreign ++ sent, nodes } ∧ nodes.Sublist (w.hub k).nodes := by
    rcases hub_modifyHub_cases (w := w) (h := k) h f with he | ⟨hk, he⟩
    · exact ⟨[], _, by rw [he, List.append_nil], List.Sublist.refl _⟩
    · rw [he]
      exact (hf.resolve_left fun hn => hn hk) _
  have a : Apart links k w { w.modifyHub h f with hubs := w.hubs } := of_eq rfl rfl
  exact ⟨a.heap, Nat.le_of_eq (size_modifyHub ..).symm, hhub, a.unused, a.known, a.greenlets⟩

theorem alloc {v : Value} (hv : ∀ g, v = .greenlet g → g.hub ≠ k) :
    Apart links k w (w.alloc v).2 where
  heap := by simp [World.alloc]
  hubs := Nat.le_refl _
  hub := ⟨[], _, by rw [List.append_nil]; rfl, List.Sublist.refl _⟩
  unused q hq h₀ := by rwa [count_alloc, if_neg (Nat.ne_of_lt hq)]
  known q g' hg hk := by
    obtain ⟨n, ho⟩ := greenlet?_eq_some_iff.mp hg
    rw [object?_alloc] at ho
    split at ho
    · cases ho
      exact absurd hk (hv g' rfl)
    · exact ⟨g', greenlet?_eq_some_iff.mpr ⟨n, ho⟩, hk⟩
  greenlets q g hg _ := by
    obtain ⟨n, hn, ho⟩ := living?_eq_some_iff.mp hg
    refine .inr ⟨g.parent, living?_eq_some_iff.mpr ⟨n, hn, ?_⟩, .inl rfl⟩
    rw [object?_alloc, if_neg (Nat.ne_of_lt (lt_size_of_object? ho))]
    exact ho

theorem erase (h₀ : w.count r = 0) : Apart links k w (w.erase r) where
  heap := by simp [World.erase]
  hubs := Nat.le_refl _
  hub := ⟨[], _, by rw [List.append_nil]; rfl, List.Sublist.refl _⟩
  unused q _ hq := by
    rw [World.count, object?_erase]
    split
    · rfl
    · exact hq
  known q g' hg hk := by
    obtain ⟨n, ho⟩ := greenlet?_eq_some_iff.mp hg
    rw [object?_erase] at ho
    split at ho
    · cases ho
    · exact ⟨g', greenlet?_eq_some_iff.mpr ⟨n, ho⟩, hk⟩
  greenlets q g hg _ := by
    obtain ⟨n, hn, ho⟩ := living?_eq_some_iff.mp hg
    refine .inr ⟨g.parent, living?_eq_some_iff.mpr ⟨n, hn, ?_⟩, .inl rfl⟩
    rw [object?_erase, if_neg ?_]
    · exact ho
    · rintro rfl
      rw [count_of_some ho] at h₀
      exact absurd h₀ (Nat.ne_of_gt hn)

theorem retain (hr : 0 < w.count r) : Apart links k w (w.retain r) :=
  modifyObject fun o ho => by
    rw [count_of_some ho] at hr
    exact .ofCount rfl (fun h => absurd h (Nat.ne_of_gt hr)) fun h => by simp at h

theorem unref (hr : ∀ n g, w.object? r = some ⟨n, .greenlet g⟩ → n ≤ 1 → g.isMain = false →
    g.fiber = none) : Apart links k w (w.unref r) :=
  modifyObject fun o ho => by
    obtain ⟨n, v⟩ := o
    refine .ofCount rfl (fun h => ?_) fun h g hg _ hm => ?_
    · dsimp only at h ⊢
      omega
    · dsimp only at h hg
      subst hg
      exact hr n g ho (by omega) hm

end Apart

end World

open World

variable {L : Licence} {hand hand' : List Token} {w w' : World} {k : HubId}

namespace Effect

private theorem makeHome_apart (hk : k < w.hubs.size) : Apart L.links k w
    (w.createHub.2.modifyThread fun t => { t with home := .full w.createHub.1 }) := by
  obtain ⟨-, id, hq⟩ := createHub_quiet w
  have hne : w.hubs.size ≠ k := Nat.ne_of_gt hk
  have h₁ : Apart L.links k w ((w.alloc (.greenlet (w.newMain id))).2.retain w.heap.size) := by
    refine (Apart.alloc fun g hg => ?_).trans (.retain ?_)
    · cases hg
      exact hne
    · simp [count_alloc]
  have h₂ : Apart L.links k ((w.alloc (.greenlet (w.newMain id))).2.retain w.heap.size)
      { (w.alloc (.greenlet (w.newMain id))).2.retain w.heap.size with
        hubs := w.hubs.push { thread := w.active, main := w.heap.size, current := w.heap.size } } := by
    have a : Apart L.links k ((w.alloc (.greenlet (w.newMain id))).2.retain w.heap.size)
      ((w.alloc (.greenlet (w.newMain id))).2.retain w.heap.size) := .refl _
    refine ⟨a.heap, ?_, ⟨[], _, ?_, List.Sublist.refl _⟩, a.unused, a.known, a.greenlets⟩
    · simp [World.retain, World.modifyObject, World.alloc]
    · rw [List.append_nil]
      simp only [World.hub, Array.getElem?_push, if_neg (Ne.symm hne)]
      rfl
  exact ((h₁.trans h₂).trans (.of_quiet hq)).trans (.of_eq rfl rfl)

private theorem create_apart {h : HubId} {run : RunFn} {p : Option Ref} {r : Ref}
    (hs : Sane (run.tokens ++ hand) w) (hn : w.thread.home ≠ .full k) (hh : w.Reaches h)
    (hp : ∀ q, p = some q → w.Offers (run.tokens ++ hand) q)
    (hc : w.createGreenlet h run p = (.ok r, w')) : Apart L.links k w w' := by
  obtain ⟨-, -, -, id, hq⟩ := createGreenlet_ok hc
  have hne : h ≠ k := fun he => hn (he ▸ hh.home hs.named)
  have hpos : 0 < w.count (p.getD (w.hub h).current) := by
    refine hs.covers.count_pos (hs.offered ?_)
    cases p with
    | none => exact .current hh rfl
    | some q => exact hp q rfl
  refine Apart.trans (((Apart.retain hpos).trans (.alloc fun g hg => ?_)).trans
    (.modifyHub (.inl hne))) (.of_quiet hq)
  cases hg
  exact hne

private theorem home_spawnStep (w : World) (steps : List Script.Step) :
    (w.spawnStep steps).thread.home = .vacant := by
  simp only [World.thread, spawnStep, World.push, World.modifyThread, Nat.add_sub_cancel,
    Array.getElem?_push, Array.size_modify, if_true]
  rfl

theorem home_ne (e : Effect L hand w hand' w') (hw : w.Seated) (hk : k < w.hubs.size)
    (hn : w.thread.home ≠ .full k) : k < w'.hubs.size ∧ w'.thread.home ≠ .full k := by
  have stays {v : World} (hv : v.Seated) (hk : k < v.hubs.size) (hn : v.thread.home ≠ .full k)
      {f : Thread → Thread} (hf : (f v.thread).home = v.thread.home) :
      k < (v.modifyThread f).hubs.size ∧ (v.modifyThread f).thread.home ≠ .full k := by
    refine ⟨hk, ?_⟩
    rw [thread_modifyThread hv, hf]
    exact hn
  induction e with
  | trade | alloc | retain | tables => exact ⟨hk, hn⟩
  | trans e _ ih ih' =>
    obtain ⟨hk', hn'⟩ := ih hw hk hn
    exact ih' (e.seated hw) hk' hn'
  | quiet hq => exact ⟨by rw [hq.hubs]; exact hk, by rw [(hq.thread hw).2.2]; exact hn⟩
  | push | frame | take | call | collect => exact stays hw hk hn rfl
  | @register _ v f => exact stays (v := (v.alloc (.failure f)).2) hw hk hn rfl
  | holdHub => exact ⟨(size_modifyHub ..).symm ▸ hk, hn⟩
  | @makeHome _ v _ =>
    obtain ⟨he, id, hq⟩ := createHub_quiet v
    refine ⟨?_, ?_⟩
    · change k < v.createHub.2.hubs.size
      rw [hq.hubs, Array.size_push]
      exact Nat.lt_succ_of_lt hk
    · rw [thread_modifyThread (seated_createHub.mpr hw), he]
      exact fun h => Nat.ne_of_gt hk (Slot.full.inj h)
  | create _ _ hc =>
    have hh := home_createGreenlet hw hc
    obtain ⟨-, -, -, id, hq⟩ := createGreenlet_ok hc
    refine ⟨?_, hh ▸ hn⟩
    rw [hq.hubs, size_modifyHub]
    exact hk
  | setParent _ _ hs =>
    obtain ⟨-, -, rfl⟩ := setParent_ok hs
    exact ⟨hk, hn⟩
  | spawn steps =>
    refine ⟨hk, ?_⟩
    rw [home_spawnStep]
    simp
  | fail =>
    exact stays ((seated_modifyThread _).mpr hw) hk (stays hw hk hn rfl).2 rfl

theorem apart (e : Effect L hand w hand' w') (hs : Sane hand w) (hk : k < w.hubs.size)
    (hn : w.thread.home ≠ .full k) : Apart L.links k w w' := by
  induction e with
  | trade => exact .refl _
  | trans e _ ih ih' =>
    obtain ⟨hk', hn'⟩ := e.home_ne hs.seated hk hn
    exact (ih hs hk hn).trans (ih' (e.widen.sane hs) hk' hn')
  | quiet hq => exact .of_quiet hq
  | push | frame | take | call | collect | tables | spawn | fail => exact .of_eq rfl rfl
  | register f =>
    exact Apart.trans (.alloc (v := .failure f) fun g hg => by cases hg) (.of_eq rfl rfl)
  | alloc v hv =>
    refine .alloc fun g hg => ?_
    rw [hg] at hv
    cases hv
  | retain r ho => exact .retain (hs.covers.count_pos (hs.offered ho))
  | holdHub h hh => exact .modifyHub (.inl fun he => hn (he ▸ hh.home hs.named))
  | makeHome => exact makeHome_apart hk
  | create hh hp hc => exact create_apart hs hn hh hp hc
  | setParent _ hp hsp hl =>
    obtain ⟨-, -, rfl⟩ := setParent_ok hsp
    exact (Apart.retain (hs.covers.count_pos (hs.offered hp))).trans
      (.modifyGreenlet fun _ _ _ => ⟨rfl, fun _ _ => ⟨_, rfl, .inr hl⟩⟩)

end Effect

namespace Motion

theorem home_ne (m : Motion L hand w hand' w') (hw : w.Seated) (hk : k < w.hubs.size)
    (hn : w.thread.home ≠ .full k) : k < w'.hubs.size ∧ w'.thread.home ≠ .full k := by
  induction m with
  | script e => exact e.home_ne hw hk hn
  | trans m _ ih ih' =>
    obtain ⟨hk', hn'⟩ := ih hw hk hn
    exact ih' (m.seated hw) hk' hn'
  | @control _ _ v c =>
    refine ⟨hk, ?_⟩
    change (v.modifyThread fun t => { t with stack := c.stack }).thread.home ≠ _
    rw [thread_modifyThread hw]
    exact hn
  | expire | vacate =>
    refine ⟨hk, ?_⟩
    rw [thread_modifyThread hw]
    first | exact hn | simp
  | retire =>
    split
    · refine ⟨?_, hn⟩
      rw [World.forget, size_modifyHub]
      exact hk
    · exact ⟨hk, hn⟩
  | hub | send | current | leave | close | dispose | hold =>
    exact ⟨(size_modifyHub ..).symm ▸ hk, hn⟩
  | _ => exact ⟨hk, hn⟩

private theorem retire_apart {r : Ref} {n : Nat} {g : Greenlet}
    (ho : w.object? r = some ⟨n, .greenlet g⟩) (hf : g.fiber = none) : Apart L.links k w
      (if w.hubLives g.hub then (w.unref r).forget g.hub r else w.unref r) := by
  have hu : Apart L.links k w (w.unref r) := .unref fun n' g' ho' _ _ => by
    rw [ho] at ho'
    cases ho'
    exact hf
  split
  · exact hu.trans (.modifyHub (.inr fun s => ⟨[], _, by rw [List.append_nil],
      List.erase_sublist⟩))
  · exact hu

private theorem restore_apart {r : Ref} {o : Object} {v : Value} (hs : Sane (.object r :: hand) w)
    (ho : w.object? r = some o) (hv : v = o.value ∨ o.value.greenlet? = none ∧ v.greenlet? = none) :
    Apart L.links k w (w.modifyObject r fun _ => ⟨1, v⟩) := by
  refine .modifyObject fun o' ho' => ?_
  obtain rfl := Option.some.inj (ho.symm.trans ho')
  have hpos : 0 < w.count r := hs.covers.count_pos (by rw [List.count_cons_self]; omega)
  rw [count_of_some ho] at hpos
  rcases hv with rfl | ⟨h₁, h₂⟩
  · exact .ofCount rfl (fun h => absurd h (Nat.ne_of_gt hpos)) fun h => by simp at h
  · exact .ofOther h₁ h₂ fun h => absurd h (Nat.ne_of_gt hpos)

/-- Motions leave a hub alone that is not the home of the active thread, if they may work neither on
the hub nor on its greenlets. -/
theorem apart (m : Motion L hand w hand' w') (hs : Sane hand w) (hk : k < w.hubs.size)
    (hn : w.thread.home ≠ .full k) (hh : ¬ L.hubs k)
    (hg : ∀ q g, w.greenlet? q = some g → g.hub = k → ¬ L.greenlets q) : Apart L.links k w w' := by
  have other {h : HubId} (hl : L.hubs h) : h ≠ k := fun he => hh (he ▸ hl)
  induction m with
  | script e => exact e.apart hs hk hn
  | trade | empty => exact .refl _
  | trans m _ ih ih' =>
    obtain ⟨hk', hn'⟩ := m.home_ne hs.seated hk hn
    have a := ih hs hk hn hg
    refine a.trans (ih' (m.widen.sane hs) hk' hn' fun q g' hq hk' => ?_)
    obtain ⟨g, hq₀, hk₀⟩ := a.known q g' hq hk'
    exact hg q g hq₀ hk₀
  | lock | control | names | expire | vacate => exact .of_eq rfl rfl
  | retain r hb => exact .retain (hs.covers.count_pos (hs.backed hb))
  | release _ ho h =>
    refine .unref fun n g ho' h₁ => ?_
    rw [ho] at ho'
    cases ho'
    exact absurd h₁ (Nat.not_le.mpr h)
  | bury _ ho _ hm =>
    refine .unref fun n g ho' _ hm' => ?_
    rw [ho] at ho'
    cases ho'
    rw [hm g rfl] at hm'
    cases hm'
  | retire _ ho _ _ hf => exact retire_apart ho hf
  | restore _ ho _ hv => exact restore_apart hs ho hv.greenlet?
  | clear r =>
    refine .modifyGreenlet fun n g ho => ⟨rfl, fun _ hpos => ?_⟩
    have hz := hs.count_of_grave List.mem_cons_self
    rw [count_of_some ho] at hz
    exact absurd hz (Nat.ne_of_gt hpos)
  | erase r => exact .erase (hs.count_of_grave List.mem_cons_self)
  | @greenlet _ _ _ r _ hl hst =>
    refine .modifyGreenlet fun n g ho => ⟨(hst g).hub, fun hk' _ => ?_⟩
    exact absurd hl (hg r g (greenlet?_eq_some_iff.mpr ⟨n, ho⟩) hk')
  | hub hl => exact .modifyHub (.inl (other hl))
  | send => exact .modifyHub (.inr fun s => ⟨_, _, rfl, List.Sublist.refl _⟩)
  | current hl => exact .modifyHub (.inl (other hl))
  | hold hl | leave hl | close hl | dispose hl => exact .modifyHub (.inl (other hl))

end Motion

end Switchyard
