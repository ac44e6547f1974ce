import Switchyard.Proofs.Motion.Lineage
import Switchyard.Proofs.Motion.Run

/-!
# The forest of greenlets

Each thread has one hub. Above a greenlet are greenlets of its thread only, up to the main greenlet
of that hub. Motions change links only where a greenlet is made, moved or destroyed.
-/

namespace Switchyard

/-- The place of the object in the tree is the same after an update, or it is taken apart. -/
inductive Object.Near : Object → Object → Prop where
  | other {o o' : Object} (h : o.value.greenlet? = none) (h' : o'.value.greenlet? = none) : Near o o'
  | greenlet {n n' : Nat} {g g' : Greenlet} (ht : g'.thread = g.thread)
      (hm : g'.isMain = g.isMain) (hh : g'.hub = g.hub)
      (hp : g'.parent = g.parent ∨ g'.parent = none ∧ n' = 0) (hn : 0 < n' → 0 < n) :
      Near ⟨n, .greenlet g⟩ ⟨n', .greenlet g'⟩

theorem Object.Near.refl (o : Object) : o.Near o := by
  obtain ⟨n, v⟩ := o
  cases v with
  | greenlet g => exact .greenlet rfl rfl rfl (.inl rfl) id
  | _ => exact .other rfl rfl

theorem Greenlet.Stays.near {g g' : Greenlet} (h : g.Stays g') (n : Nat) :
    Object.Near ⟨n, .greenlet g⟩ ⟨n, .greenlet g'⟩ :=
  .greenlet h.thread h.isMain h.hub (.inl h.parent) fun hn => hn

namespace World

variable {w w' : World} {hand hand' : List Token} {r p : Ref} {h : HubId} {g : Greenlet}

/-- The greenlet `g` at `r` is where it belongs. -/
structure Placed (w : World) (r : Ref) (g : Greenlet) : Prop where
  hub : g.hub < w.hubs.size
  thread : g.thread = (w.hub g.hub).thread
  main : g.isMain = true → g.parent = none ∧ (w.hub g.hub).main = r
  parent : g.isMain = false → 0 < w.count r → g.parent ≠ none
  link : ∀ p, g.parent = some p → (w.greenlet p).thread = g.thread

/-- The parent links form a forest, with a tree for each hub and a hub for each thread at most. -/
structure Rooted (w : World) : Prop where
  threads : ∀ h, h < w.hubs.size → 0 < (w.hub h).thread ∧
    (w.hub h).thread ≤ w.threads.size ∧ w.homeAt ((w.hub h).thread - 1) ≠ .vacant
  unique : ∀ h k, h < w.hubs.size → k < w.hubs.size → (w.hub h).thread = (w.hub k).thread → h = k
  placed : ∀ r g, w.greenlet? r = some g → w.Placed r g
  main : ∀ h, h < w.hubs.size → (w.hub h).disposed = false →
    (w.greenlet (w.hub h).main).thread = (w.hub h).thread
  current : ∀ h, h < w.hubs.size → (w.hub h).disposed = false →
    (w.greenlet (w.hub h).current).thread = (w.hub h).thread
  lineages : ∀ r, ∃ l, w.Lineage r l

/-- Links are cut at most, and hubs work with other greenlets of their threads at most. -/
structure Rests (w w' : World) : Prop where
  size : w'.hubs.size = w.hubs.size
  threads : w.threads.size ≤ w'.threads.size
  homes : ∀ i, i < w.threads.size → w.homeAt i ≠ .vacant → w'.homeAt i ≠ .vacant
  hubs : ∀ h, (w'.hub h).thread = (w.hub h).thread ∧ (w'.hub h).main = (w.hub h).main ∧
    ((w'.hub h).disposed = false → (w.hub h).disposed = false)
  currents : ∀ h, (w'.hub h).current = (w.hub h).current ∨
    (w.greenlet (w'.hub h).current).thread = (w.hub h).thread
  objects : ∀ q o', w'.object? q = some o' → (∃ o, w.object? q = some o ∧ o.Near o') ∨
    o'.value.greenlet? = none ∧ w.greenlet? q = none

theorem parent_of_greenlet? (hg : w.greenlet? r = some g) : w.parent r = g.parent := by
  rw [World.parent, greenlet_of_some hg]

theorem greenlet?_of_parent (hp : w.parent r = some p) :
    ∃ g, w.greenlet? r = some g ∧ g.parent = some p := by
  cases hg : w.greenlet? r with
  | none =>
    rw [World.parent, greenlet_of_none hg] at hp
    cases hp
  | some g => exact ⟨g, rfl, parent_of_greenlet? hg ▸ hp⟩

namespace Rests

theorem same (hh : w'.hubs = w.hubs) (hp : w'.heap = w.heap) (ht : w.threads.size ≤ w'.threads.size)
    (hv : ∀ i, i < w.threads.size → w.homeAt i ≠ .vacant → w'.homeAt i ≠ .vacant) : Rests w w' where
  size := by rw [hh]
  threads := ht
  homes := hv
  hubs h := by simp [World.hub, hh]
  currents h := .inl (by simp [World.hub, hh])
  objects q o ho := by
    have he : w'.object? q = w.object? q := by simp [World.object?, hp]
    exact .inl ⟨o, he ▸ ho, .refl o⟩

theorem beside (hb : Beside w w') (hh : w'.hubs = w.hubs) (hp : w'.heap = w.heap) : Rests w w' :=
  .same hh hp (Nat.le_of_eq hb.size.symm) fun i _ hi => hb.homeAt i ▸ hi

theorem modifyObject {f : Object → Object} (hf : ∀ o, w.object? r = some o → o.Near (f o)) :
    Rests w (w.modifyObject r f) where
  size := rfl
  threads := Nat.le_refl _
  homes _ _ hi := hi
  hubs _ := ⟨rfl, rfl, id⟩
  currents _ := .inl rfl
  objects q o' ho := by
    rw [object?_modifyObject] at ho
    split at ho
    · subst_vars
      obtain ⟨o, hr, rfl⟩ := Option.map_eq_some_iff.mp ho
      exact .inl ⟨o, hr, hf o hr⟩
    · exact .inl ⟨o', ho, .refl o'⟩

theorem modifyGreenlet {f : Greenlet → Greenlet}
    (hf : ∀ n g, w.object? r = some ⟨n, .greenlet g⟩ →
      Object.Near ⟨n, .greenlet g⟩ ⟨n, .greenlet (f g)⟩) :
    Rests w (w.modifyGreenlet r f) :=
  .modifyObject fun o ho => by
    obtain ⟨n, v⟩ := o
    cases v with
    | greenlet g => exact hf n g ho
    | _ => exact .other rfl rfl

theorem retain (r : Ref) (hr : 0 < w.count r) : Rests w (w.retain r) :=
  .modifyObject fun o ho => by
    obtain ⟨n, v⟩ := o
    cases v with
    | greenlet g => exact .greenlet rfl rfl rfl (.inl rfl) fun _ => by rwa [count_of_some ho] at hr
    | _ => exact .other rfl rfl

theorem unref (r : Ref) : Rests w (w.unref r) :=
  .modifyObject fun o _ => by
    obtain ⟨n, v⟩ := o
    cases v with
    | greenlet g => exact .greenlet rfl rfl rfl (.inl rfl) fun h => by dsimp only at h; omega
    | _ => exact .other rfl rfl

theorem erase (r : Ref) : Rests w (w.erase r) where
  size := rfl
  threads := Nat.le_refl _
  homes _ _ hi := hi
  hubs _ := ⟨rfl, rfl, id⟩
  currents _ := .inl rfl
  objects q o' ho := by
    rw [object?_erase] at ho
    split at ho
    · cases ho
    · exact .inl ⟨o', ho, .refl o'⟩

theorem alloc {v : Value} (hv : v.greenlet? = none) : Rests w (w.alloc v).2 where
  size := rfl
  threads := Nat.le_refl _
  homes _ _ hi := hi
  hubs _ := ⟨rfl, rfl, id⟩
  currents _ := .inl rfl
  objects q o' ho := by
    rw [object?_alloc] at ho
    split at ho
    · cases ho
      subst_vars
      exact .inr ⟨hv, by simp [World.greenlet?, object?_size]⟩
    · exact .inl ⟨o', ho, .refl o'⟩

theorem modifyHub {f : Hub → Hub} (hf : ∀ s, (f s).thread = s.thread ∧ (f s).main = s.main ∧
    ((f s).disposed = false → s.disposed = false))
    (hc : (f (w.hub h)).current = (w.hub h).current ∨
      (w.greenlet (f (w.hub h)).current).thread = (w.hub h).thread) :
    Rests w (w.modifyHub h f) where
  size := by simp [World.modifyHub]
  threads := Nat.le_refl _
  homes _ _ hi := hi
  hubs k := by
    rcases hub_modifyHub_cases (w := w) (h := k) h f with he | ⟨-, he⟩
    · rw [he]
      exact ⟨rfl, rfl, id⟩
    · rw [he]
      exact hf _
  currents k := by
    rcases hub_modifyHub_cases (w := w) (h := k) h f with he | ⟨rfl, he⟩
    · rw [he]
      exact .inl rfl
    · rw [he]
      exact hc
  objects _ o ho := .inl ⟨o, ho, .refl o⟩

theorem trans_hub {f : Hub → Hub} (hr : Rests w w') (hf : ∀ s, (f s).thread = s.thread ∧
    (f s).main = s.main ∧ (f s).current = s.current ∧ (f s).disposed = s.disposed) :
    Rests w (w'.modifyHub h f) where
  size := by simp [World.modifyHub, hr.size]
  threads := hr.threads
  homes := hr.homes
  hubs k := by
    rcases hub_modifyHub_cases (w := w') (h := k) h f with he | ⟨-, he⟩
    · rw [he]
      exact hr.hubs k
    · rw [he, (hf _).1, (hf _).2.1, (hf _).2.2.2]
      exact hr.hubs k
  currents k := by
    rcases hub_modifyHub_cases (w := w') (h := k) h f with he | ⟨-, he⟩
    · rw [he]
      exact hr.currents k
    · rw [he, (hf _).2.2.1]
      exact hr.currents k
  objects := hr.objects

end Rests

theorem Covers.count_pos (hc : Covers (·.isCounted = true) hand w)
    (hd : 0 < w.demand (.object r) + hand.count (.object r)) : 0 < w.count r := by
  have hk := hc (.object r) rfl
  rw [supply_object] at hk
  omega

namespace Rooted

theorem thread_pos (hr : w.Rooted) (hg : w.greenlet? r = some g) : 0 < g.thread := by
  have hp := hr.placed r g hg
  rw [hp.thread]
  exact (hr.threads _ hp.hub).1

private theorem carry (hc : Covers (·.isCounted = true) hand' w') (hx : Rests w w')
    (hd : 0 < w'.demand (.object p)) (hp : 0 < (w.greenlet p).thread) :
    (w'.greenlet p).thread = (w.greenlet p).thread := by
  have hpos := hc.count_pos (Nat.lt_of_lt_of_le hd (Nat.le_add_right _ _))
  cases ho' : w'.object? p with
  | none => simp [World.count, ho'] at hpos
  | some o' =>
    have hg := greenlet?_of_thread (Nat.pos_iff_ne_zero.mp hp)
    obtain ⟨o, ho, hn⟩ | ⟨-, hn⟩ := hx.objects p o' ho'
    case inr => simp [hg] at hn
    cases hn with
    | other hv _ =>
      simp [World.greenlet?, ho, hv] at hg
    | greenlet ht =>
      rw [greenlet_of_some (greenlet?_eq_some_iff.mpr ⟨_, ho⟩),
        greenlet_of_some (greenlet?_eq_some_iff.mpr ⟨_, ho'⟩), ht]

theorem rests (hr : w.Rooted) (hc : Covers (·.isCounted = true) hand' w') (hx : Rests w w') :
    w'.Rooted := by
  have hparent (q : Ref) : w'.parent q = w.parent q ∨ w'.parent q = none := by
    cases hg' : w'.greenlet? q with
    | none => exact .inr (by rw [World.parent, greenlet_of_none hg']; rfl)
    | some g' =>
      obtain ⟨n', ho'⟩ := greenlet?_eq_some_iff.mp hg'
      obtain ⟨o, ho, hn⟩ | ⟨hv, -⟩ := hx.objects q _ ho'
      case inr => cases hv
      rw [parent_of_greenlet? hg']
      cases hn with
      | other _ hv => cases hv
      | greenlet _ _ _ hp =>
        rw [parent_of_greenlet? (greenlet?_eq_some_iff.mpr ⟨_, ho⟩)]
        exact hp.imp_right And.left
  constructor
  · intro h hh
    rw [hx.size] at hh
    obtain ⟨h₁, h₂, h₃⟩ := hr.threads h hh
    rw [(hx.hubs h).1]
    exact ⟨h₁, Nat.le_trans h₂ hx.threads, hx.homes _ (by unfold ThreadId at *; omega) h₃⟩
  · intro h k hh hk
    rw [(hx.hubs h).1, (hx.hubs k).1]
    exact hr.unique h k (hx.size ▸ hh) (hx.size ▸ hk)
  · intro q g' hg'
    obtain ⟨n', ho'⟩ := greenlet?_eq_some_iff.mp hg'
    obtain ⟨o, ho, hn⟩ | ⟨hv, -⟩ := hx.objects q _ ho'
    case inr => cases hv
    cases hn with
    | other _ hv => cases hv
    | @greenlet n _ g _ ht hm hh hp hn =>
      have hg : w.greenlet? q = some g := greenlet?_eq_some_iff.mpr ⟨n, ho⟩
      have hpl := hr.placed q g hg
      constructor
      · rw [hh, hx.size]
        exact hpl.hub
      · rw [hh, ht, (hx.hubs _).1]
        exact hpl.thread
      · intro hm'
        obtain ⟨h₁, h₂⟩ := hpl.main (hm ▸ hm')
        rw [hh, (hx.hubs _).2.1]
        exact ⟨hp.elim (·.trans h₁) And.left, h₂⟩
      · intro hm' hpos
        rw [count_of_some ho'] at hpos
        rcases hp with hp | ⟨-, hz⟩
        · rw [hp]
          refine hpl.parent (hm ▸ hm') ?_
          rw [count_of_some ho]
          exact hn hpos
        · exact absurd hz (Nat.ne_of_gt hpos)
      · intro p hp'
        rcases hp with hp | ⟨hp, -⟩
        · have hl := hpl.link p (hp ▸ hp')
          have hd := spare_of_parent ((parent_of_greenlet? hg').trans hp')
          have := demand_object w' p
          rw [carry hc hx (by omega) (hl ▸ hr.thread_pos hg), hl, ht]
        · rw [hp] at hp'
          cases hp'
  · intro h hh hd
    have hh' := hx.size ▸ hh
    have hs := spare_of_main hh hd
    have := demand_object w' (w'.hub h).main
    have ht := hr.main h hh' ((hx.hubs h).2.2 hd)
    rw [← (hx.hubs h).2.1] at ht
    rw [carry hc hx (by omega) (ht ▸ (hr.threads h hh').1), ht, (hx.hubs h).1]
  · intro h hh hd
    have hh' := hx.size ▸ hh
    have hs := spare_of_main hh hd
    have := demand_object w' (w'.hub h).current
    have ht : (w.greenlet (w'.hub h).current).thread = (w.hub h).thread := by
      rcases hx.currents h with he | ht
      · rw [he]
        exact hr.current h hh' ((hx.hubs h).2.2 hd)
      · exact ht
    rw [carry hc hx (by omega) (ht ▸ (hr.threads h hh').1), ht, (hx.hubs h).1]
  · intro q
    obtain ⟨l, hl⟩ := hr.lineages q
    exact hl.cut hparent

theorem thread_of_mem (hr : w.Rooted) {l : List Ref} (hl : w.Lineage r l) {q : Ref} (hq : q ∈ l) :
    (w.greenlet q).thread = (w.greenlet r).thread := by
  induction hl with
  | root => cases hq
  | link h₀ _ ih =>
    obtain ⟨g, hg, hp⟩ := greenlet?_of_parent h₀
    have ht := (hr.placed _ g hg).link _ hp
    rw [greenlet_of_some hg, ← ht]
    rcases List.mem_cons.mp hq with rfl | hq
    · rfl
    · exact ih hq

theorem bear (hr : w.Rooted) (hh : g.hub < w.hubs.size) (hm : g.isMain = false)
    (ht : g.thread = (w.hub g.hub).thread) (hp : g.parent = some p)
    (hpt : (w.greenlet p).thread = g.thread) : (w.alloc (.greenlet g)).2.Rooted := by
  have hget (q : Ref) : (w.alloc (.greenlet g)).2.greenlet? q =
      if q = w.heap.size then some g else w.greenlet? q := by
    unfold World.greenlet?
    rw [object?_alloc]
    split <;> rfl
  have hold {q : Ref} (hq : 0 < (w.greenlet q).thread) :
      (w.alloc (.greenlet g)).2.greenlet q = w.greenlet q := by
    have hg := greenlet?_of_thread (Nat.pos_iff_ne_zero.mp hq)
    refine greenlet_of_some ?_
    rw [hget, if_neg fun he => ?_]
    · exact hg
    · rw [he, World.greenlet?, object?_size] at hg
      cases hg
  have hpos : 0 < g.thread := ht ▸ (hr.threads _ hh).1
  have hparent (q : Ref) (hq : q ≠ w.heap.size) :
      (w.alloc (.greenlet g)).2.parent q = w.parent q := by
    have he := hget q
    rw [if_neg hq] at he
    rw [World.parent, World.parent, greenlet_eq, greenlet_eq w, he]
  refine ⟨hr.threads, hr.unique, fun q g' hg' => ?_, fun h hh' hd => ?_, fun h hh' hd => ?_,
    fun q => ?_⟩
  · rw [hget] at hg'
    split at hg'
    · obtain rfl := Option.some.inj hg'
      refine ⟨hh, ht, fun h => ?_, fun _ _ => ?_, fun q hq => ?_⟩
      · rw [hm] at h
        cases h
      · rw [hp]
        exact Option.some_ne_none p
      · obtain rfl := Option.some.inj (hp.symm.trans hq)
        rw [hold (hpt ▸ hpos), hpt]
    · rename_i hq
      have hpl := hr.placed q g' hg'
      refine ⟨hpl.hub, hpl.thread, hpl.main, fun hm' hc => hpl.parent hm' ?_, fun u hu => ?_⟩
      · rwa [count_alloc, if_neg hq] at hc
      · have hl := hpl.link u hu
        rw [hold (hl ▸ hr.thread_pos hg'), hl]
  · have hl := hr.main h hh' hd
    exact (congrArg Greenlet.thread (hold (hl ▸ (hr.threads h hh').1))).trans hl
  · have hl := hr.current h hh' hd
    exact (congrArg Greenlet.thread (hold (hl ▸ (hr.threads h hh').1))).trans hl
  · obtain ⟨l, hl⟩ := hr.lineages q
    obtain ⟨lp, hlp⟩ := hr.lineages p
    have hnone : (w.greenlet w.heap.size).thread = 0 := by
      rw [greenlet_of_none (by simp [World.greenlet?, object?_size])]
      rfl
    refine hl.move hlp (fun he => ?_) (fun he => ?_) ?_ hparent
    · rw [he, hnone] at hpt
      exact absurd hpt (Nat.ne_of_lt hpos)
    · have := hr.thread_of_mem hlp he
      rw [hnone, hpt] at this
      exact absurd this (Nat.ne_of_lt hpos)
    rw [parent_of_greenlet? (by rw [hget, if_pos rfl]), hp]

theorem move (hr : w.Rooted) (hm : (w.greenlet r).isMain = false)
    (ht : (w.greenlet p).thread = (w.greenlet r).thread) {l : List Ref} (hl : w.Lineage p l)
    (hne : p ≠ r) (hn : r ∉ l) : (w.modifyGreenlet r fun g => { g with parent := some p }).Rooted := by
  have hg (q : Ref) : (w.modifyGreenlet r fun g => { g with parent := some p }).greenlet? q =
      if r = q then (w.greenlet? q).map fun g => { g with parent := some p } else w.greenlet? q :=
    greenlet?_modifyGreenlet ..
  have hthread (q : Ref) : ((w.modifyGreenlet r fun g =>
      { g with parent := some p }).greenlet q).thread = (w.greenlet q).thread := by
    have he := hg q
    cases hq : w.greenlet? q with
    | none =>
      rw [hq] at he
      rw [greenlet_of_none hq, greenlet_of_none (by rw [he]; split <;> rfl)]
    | some g =>
      rw [hq] at he
      rw [greenlet_of_some hq]
      split at he
      · rw [greenlet_of_some he]
      · rw [greenlet_of_some he]
  refine ⟨hr.threads, hr.unique, fun q g' hg' => ?_, fun h hh hd => ?_, fun h hh hd => ?_,
    fun q => ?_⟩
  · rw [hg] at hg'
    split at hg'
    · rename_i hq
      subst hq
      obtain ⟨g, hg₀, rfl⟩ := Option.map_eq_some_iff.mp hg'
      have hpl := hr.placed r g hg₀
      rw [greenlet_of_some hg₀] at hm ht
      refine ⟨hpl.hub, hpl.thread, fun h => ?_, fun _ _ => Option.some_ne_none p, fun q hq => ?_⟩
      · rw [hm] at h
        cases h
      · obtain rfl := Option.some.inj hq
        rw [hthread]
        exact ht
    · have hpl := hr.placed q g' hg'
      refine ⟨hpl.hub, hpl.thread, hpl.main, fun h hc => hpl.parent h ?_, fun u hu => ?_⟩
      · rwa [count_modifyGreenlet] at hc
      · rw [hthread]
        exact hpl.link u hu
  · exact (hthread _).trans (hr.main h hh hd)
  · exact (hthread _).trans (hr.current h hh hd)
  · obtain ⟨lq, hq⟩ := hr.lineages q
    have hold (u : Ref) (hu : u ≠ r) : (w.modifyGreenlet r fun g =>
        { g with parent := some p }).parent u = w.parent u := by
      have he := hg u
      rw [if_neg (Ne.symm hu)] at he
      rw [World.parent, World.parent, greenlet_eq, greenlet_eq w, he]
    cases hg₀ : w.greenlet? r with
    | none =>
      refine hq.cut fun u => ?_
      by_cases hu : u = r
      · refine .inr ?_
        rw [hu, World.parent, greenlet_of_none (by rw [hg, if_pos rfl, hg₀]; rfl)]
        rfl
      · exact .inl (hold u hu)
    | some g =>
      refine hq.move hl hne hn ?_ hold
      rw [parent_of_greenlet? (by rw [hg, if_pos rfl, hg₀]; rfl)]

end Rooted

/-- The active thread has a new hub. -/
private def settled (w : World) : World :=
  w.createHub.2.modifyThread fun t => { t with home := .full w.createHub.1 }

private theorem size_settled (w : World) : w.settled.hubs.size = w.hubs.size + 1 := by
  obtain ⟨id, hq⟩ := (createHub_quiet w).2
  have hh : w.settled.hubs = _ := hq.hubs
  rw [hh, Array.size_push]

private theorem hub_settled (w : World) (k : HubId) : w.settled.hub k = if k = w.hubs.size
    then { thread := w.active, main := w.heap.size, current := w.heap.size } else w.hub k := by
  obtain ⟨id, hq⟩ := (createHub_quiet w).2
  have hh : w.settled.hubs = _ := hq.hubs
  unfold World.hub
  rw [hh, Array.getElem?_push]
  split <;> rfl

private theorem object?_settled (w : World) : ∃ id, ∀ q, w.settled.object? q =
    if q = w.heap.size then some ⟨2, .greenlet (w.newMain id)⟩ else w.object? q := by
  obtain ⟨id, hq⟩ := (createHub_quiet w).2
  refine ⟨id, fun q => ?_⟩
  have ho : w.settled.object? q = _ := congrFun hq.object? q
  rw [ho]
  change ((w.alloc (.greenlet (w.newMain id))).2.retain w.heap.size).object? q = _
  rw [World.retain, object?_modifyObject, object?_alloc]
  by_cases he : q = w.heap.size
  · simp [he]
  · simp [he, Ne.symm he]

private theorem size_threads_settled (w : World) : w.settled.threads.size = w.threads.size := by
  unfold settled World.modifyThread
  simp only [Array.size_modify]
  rfl

private theorem homeAt_settled (hw : w.Seated) (i : Nat) : w.settled.homeAt i =
    if i = w.active - 1 then .full w.hubs.size else w.homeAt i := by
  have hs : w.createHub.2.Seated := hw
  split
  · subst_vars
    exact (homeAt_active ((seated_modifyThread _).mpr hs)).trans (by rw [thread_modifyThread hs]; rfl)
  · rename_i hi
    unfold settled World.homeAt World.modifyThread
    simp only [Array.getElem?_modify]
    rw [if_neg (show ¬ w.createHub.2.active - 1 = i from Ne.symm hi)]
    rfl

namespace Rooted

theorem makeHome (hr : w.Rooted) (hw : w.Seated) (hv : w.thread.home = .vacant) :
    (w.createHub.2.modifyThread fun t => { t with home := .full w.createHub.1 }).Rooted := by
  change w.settled.Rooted
  obtain ⟨id, hobj⟩ := object?_settled w
  have hget {q : Ref} (hq : q ≠ w.heap.size) : w.settled.greenlet? q = w.greenlet? q := by
    rw [World.greenlet?, hobj, if_neg hq, World.greenlet?]
  have hmain : w.settled.greenlet? w.heap.size = some (w.newMain id) := by
    rw [World.greenlet?, hobj, if_pos rfl]
    rfl
  have hold {q : Ref} (hg : 0 < (w.greenlet q).thread) : w.settled.greenlet q = w.greenlet q := by
    have hg := greenlet?_of_thread (Nat.pos_iff_ne_zero.mp hg)
    refine greenlet_of_some ((hget fun he => ?_).trans hg)
    rw [he, World.greenlet?, object?_size] at hg
    cases hg
  have hlt {h : HubId} (hh : h < w.settled.hubs.size) (hne : h ≠ w.hubs.size) : h < w.hubs.size := by
    rw [size_settled] at hh
    exact Nat.lt_of_le_of_ne (Nat.le_of_lt_succ hh) hne
  have hfree (h : HubId) (hh : h < w.hubs.size) : (w.hub h).thread ≠ w.active := by
    intro he
    have := (hr.threads h hh).2.2
    rw [he, homeAt_active hw] at this
    exact this hv
  constructor
  · intro h hh
    rw [hub_settled, homeAt_settled hw, size_threads_settled]
    by_cases he : h = w.hubs.size
    · rw [if_pos he, if_pos rfl]
      exact ⟨hw.1, hw.2, (by simp)⟩
    · rw [if_neg he]
      obtain ⟨h₁, h₂, h₃⟩ := hr.threads h (hlt hh he)
      refine ⟨h₁, h₂, ?_⟩
      split
      · simp
      · exact h₃
  · intro h k hh hk ht
    rw [hub_settled, hub_settled] at ht
    by_cases he : h = w.hubs.size
    · by_cases hf : k = w.hubs.size
      · rw [he, hf]
      · rw [if_pos he, if_neg hf] at ht
        exact absurd ht.symm (hfree k (hlt hk hf))
    · by_cases hf : k = w.hubs.size
      · rw [if_neg he, if_pos hf] at ht
        exact absurd ht (hfree h (hlt hh he))
      · rw [if_neg he, if_neg hf] at ht
        exact hr.unique h k (hlt hh he) (hlt hk hf) ht
  · intro q g hg
    by_cases hq : q = w.heap.size
    · subst hq
      obtain rfl := Option.some.inj (hmain.symm.trans hg)
      have hh : w.settled.hub (w.newMain id).hub = _ := (hub_settled w _).trans (if_pos rfl)
      refine ⟨?_, by rw [hh]; rfl, fun _ => ⟨rfl, by rw [hh]⟩,
        fun h => (by cases h), fun _ h => (by cases h)⟩
      rw [size_settled]
      exact Nat.lt_succ_self _
    · rw [hget hq] at hg
      have hpl := hr.placed q g hg
      have hk : w.settled.hub g.hub = w.hub g.hub := by
        rw [hub_settled, if_neg (Nat.ne_of_lt hpl.hub)]
      refine ⟨?_, by rw [hk]; exact hpl.thread, by rw [hk]; exact hpl.main,
        fun hm hc => hpl.parent hm ?_, fun u hu => ?_⟩
      · rw [size_settled]
        exact Nat.lt_succ_of_lt hpl.hub
      · rwa [World.count, hobj, if_neg hq] at hc
      · have hl := hpl.link u hu
        rw [hold (hl ▸ hr.thread_pos hg), hl]
  · intro h hh hd
    by_cases he : h = w.hubs.size
    · rw [hub_settled, if_pos he, greenlet_of_some hmain]
      rfl
    · rw [hub_settled, if_neg he] at hd ⊢
      have hl := hr.main h (hlt hh he) hd
      rw [hold (hl ▸ (hr.threads h (hlt hh he)).1), hl]
  · intro h hh hd
    by_cases he : h = w.hubs.size
    · rw [hub_settled, if_pos he, greenlet_of_some hmain]
      rfl
    · rw [hub_settled, if_neg he] at hd ⊢
      have hl := hr.current h (hlt hh he) hd
      rw [hold (hl ▸ (hr.threads h (hlt hh he)).1), hl]
  · intro q
    obtain ⟨l, hl⟩ := hr.lineages q
    refine hl.cut fun u => ?_
    by_cases hu : u = w.heap.size
    · rw [hu, parent_of_greenlet? hmain]
      exact .inr rfl
    · rw [World.parent, World.parent, greenlet_eq, greenlet_eq w, hget hu]
      exact .inl rfl

end Rooted

end World

namespace Effect

open World

variable {w w' : World} {hand hand' : List Token} {r : Ref} {h : HubId}

private theorem spawn_rests (w : World) (steps : List Script.Step) :
    Rests w (w.spawnStep steps) := by
  have hsize : (w.push [.join (w.threads.size + 1)]).threads.size = w.threads.size := by
    simp [World.push, World.modifyThread]
  refine .same rfl rfl (by simp [spawnStep, hsize]) fun i hi hv => ?_
  have hh : (w.spawnStep steps).homeAt i = w.homeAt i := by
    unfold World.homeAt spawnStep
    simp only [Array.getElem?_push, hsize, if_neg (Nat.ne_of_lt hi)]
    simp only [World.push, World.modifyThread, Array.getElem?_modify]
    split
    · simp [Function.comp_def]
    · rfl
  rwa [hh]

private theorem create_rooted {run : RunFn} {p : Option Ref} (hs : Sane (run.tokens ++ hand) w)
    (hr : w.Rooted) (hh : w.Reaches h) (hp : ∀ q, p = some q → w.Offers (run.tokens ++ hand) q)
    (hc : w.createGreenlet h run p = (.ok r, w')) : w'.Rooted := by
  have hcov : Covers _ _ w' := (Effect.sane (.create hh hp hc) hs).covers
  obtain ⟨hopen, rfl, hth, id, hq⟩ := createGreenlet_ok hc
  obtain ⟨hlt, hd⟩ := hs.undisposed (.inr hh)
  have hpos : 0 < w.demand (.object (p.getD (w.hub h).current)) +
      (run.tokens ++ hand).count (.object (p.getD (w.hub h).current)) := by
    cases p with
    | none => exact hs.offered (.current hh rfl)
    | some q => exact hs.offered (hp q rfl)
  have hthread : (w.greenlet (p.getD (w.hub h).current)).thread = (w.hub h).thread := by
    cases p with
    | none => exact hr.current h hlt hd
    | some q => exact hth q rfl
  have hs₁ := hs.retain hpos
  have hr₁ := hr.rests hs₁.covers (.retain _ (hs.covers.count_pos hpos))
  have hr₂ : ((w.retain (p.getD (w.hub h).current)).modifyHub h fun s =>
      { s with nodes := w.heap.size :: s.nodes }).Rooted :=
    hr₁.rests (hs₁.covers.modifyHub_of_eq fun _ => ⟨rfl, rfl, rfl⟩)
      (.modifyHub (fun _ => ⟨rfl, rfl, fun hd => hd⟩) (.inl rfl))
  have hhub : ((w.retain (p.getD (w.hub h).current)).modifyHub h fun s =>
      { s with nodes := w.heap.size :: s.nodes }).hub h = { w.hub h with
        nodes := w.heap.size :: (w.hub h).nodes } :=
    (hub_modifyHub_of_lt hlt _ h).trans (if_pos rfl)
  refine Rooted.rests (hr₂.bear (g := w.newGreenlet h run (p.getD (w.hub h).current) id)
    (p := p.getD (w.hub h).current) ?_ rfl ?_ rfl ?_) hcov (.beside (.of_quiet hq) hq.hubs hq.heap)
  · exact Nat.lt_of_lt_of_eq hlt (by simp [World.modifyHub, World.retain, World.modifyObject])
  · exact (congrArg Hub.thread hhub).symm
  · exact (congrArg Greenlet.thread (greenlet_retain _)).trans hthread

private theorem setParent_rooted {p : Ref} {old : Option Ref} (hs : Sane hand w) (hr : w.Rooted)
    (hp : w.Offers hand p) (hsp : w.setParent r p = (.ok old, w')) : w'.Rooted := by
  obtain ⟨hre, -, rfl⟩ := setParent_ok hsp
  obtain ⟨hm, ht, hne, hf⟩ := reparent_allowed hre
  obtain ⟨l, hl⟩ := hr.lineages p
  have hr₁ := hr.rests (hs.retain (hs.offered hp)).covers
    (.retain p (hs.covers.count_pos (hs.offered hp)))
  refine hr₁.move ?_ ?_ (hl.congr fun q _ => ?_) hne (hl.notMem_of_findAncestor hf)
  · rw [greenlet_retain]
    exact hm
  · rw [greenlet_retain, greenlet_retain]
    exact ht
  · rw [World.parent, greenlet_retain, World.parent]

theorem rooted (e : Effect .full hand w hand' w') (hs : Sane hand w) (hr : w.Rooted) : w'.Rooted := by
  induction e with
  | trade => exact hr
  | trans e _ ih ih' => exact ih' (e.sane hs) (ih hs hr)
  | quiet hq => exact hr.rests (hs.covers.quiet hq) (.beside (.of_quiet hq) hq.hubs hq.heap)
  | push ts ht hc =>
    exact hr.rests (Effect.sane (.push ts ht hc) hs).covers
      (.beside (.modifyThread hs.seated fun _ => ⟨rfl, rfl⟩) rfl rfl)
  | frame g hg hf =>
    exact hr.rests (Effect.sane (.frame g hg hf) hs).covers
      (.beside (.modifyThread hs.seated fun _ => ⟨rfl, rfl⟩) rfl rfl)
  | alloc v hv => exact hr.rests (Effect.sane (.alloc v hv) hs).covers (.alloc hv)
  | retain r ho =>
    exact hr.rests (Effect.sane (.retain r ho) hs).covers
      (.retain r (hs.covers.count_pos (hs.offered ho)))
  | tables a b c hc =>
    exact hr.rests (Effect.sane (.tables a b c hc) hs).covers
      (.beside (.of_threads rfl rfl rfl) rfl rfl)
  | @register hand w f hv =>
    have ha := Effect.sane (.alloc (.failure f) rfl) hs
    exact (hr.rests ha.covers (.alloc rfl)).rests (Effect.sane (.register f hv) hs).covers
      (.beside (.modifyThread ha.seated fun _ => ⟨rfl, rfl⟩) rfl rfl)
  | take hf hl =>
    exact hr.rests (Effect.sane (.take hf hl) hs).covers
      (.beside (.modifyThread hs.seated fun _ => ⟨rfl, rfl⟩) rfl rfl)
  | holdHub h hh =>
    exact hr.rests (Effect.sane (.holdHub h hh) hs).covers
      (.modifyHub (fun _ => ⟨rfl, rfl, id⟩) (.inl rfl))
  | makeHome hv => exact hr.makeHome hs.seated hv
  | create hh hp hc => exact create_rooted hs hr hh hp hc
  | setParent _ hp hsp _ => exact setParent_rooted hs hr hp hsp
  | @call hand hand' w h t p u hh ht hu hc =>
    exact hr.rests (Effect.sane (.call p hh ht hu hc) hs).covers
      (.beside (.modifyThread hs.seated fun _ => ⟨rfl, rfl⟩) rfl rfl)
  | collect name d hh =>
    exact hr.rests (Effect.sane (.collect name d hh) hs).covers
      (.beside (.modifyThread hs.seated fun _ => ⟨rfl, rfl⟩) rfl rfl)
  | spawn steps => exact hr.rests (Effect.sane (.spawn steps) hs).covers (spawn_rests _ steps)
  | @fail hand w p =>
    have hb : Beside w (w.push [.fail p]) := .modifyThread hs.seated fun _ => ⟨rfl, rfl⟩
    refine hr.rests (Effect.sane (.fail p) hs).covers (.beside (hb.trans ?_) rfl rfl)
    exact .modifyThread ((seated_modifyThread _).mpr hs.seated) fun _ => ⟨rfl, rfl⟩

end Effect

namespace Motion

open World

variable {w w' : World} {hand hand' : List Token} {r : Ref} {h : HubId}

theorem rooted (m : Motion .full hand w hand' w') (hs : Sane hand w) (hr : w.Rooted) : w'.Rooted := by
  induction m with
  | script e => exact e.rooted hs hr
  | trade => exact hr
  | trans m _ ih ih' => exact ih' (m.sane hs) (ih hs hr)
  | lock l => exact hr.rests hs.covers (.beside (.of_threads rfl rfl rfl) rfl rfl)
  | control hf hp hc hx =>
    exact hr.rests (Motion.sane (.control hf hp hc hx) hs).covers
      (.beside (.setControl hs.seated _) rfl rfl)
  | retain r hb =>
    exact hr.rests (Motion.sane (.retain r hb) hs).covers
      (.retain r (hs.covers.count_pos (hs.backed hb)))
  | release hd ho h => exact hr.rests (Motion.sane (.release hd ho h) hs).covers (.unref _)
  | bury hd ho h hm => exact hr.rests (Motion.sane (.bury hd ho h hm) hs).covers (.unref _)
  | retire hd ho h hm hf =>
    refine hr.rests (Motion.sane (.retire hd ho h hm hf) hs).covers ?_
    split
    · exact (Rests.unref _).trans_hub fun _ => ⟨rfl, rfl, rfl, rfl⟩
    · exact .unref _
  | @restore hand w r o v hd ho h hv =>
    refine hr.rests (Motion.sane (.restore hd ho h hv) hs).covers (.modifyObject fun o' ho' => ?_)
    obtain rfl := Option.some.inj (ho.symm.trans ho')
    obtain ⟨n, x⟩ := o
    have hpos : 0 < n := by
      have := hs.covers.count_pos (r := r) (by rw [List.count_cons_self]; omega)
      rwa [count_of_some ho] at this
    rcases hv.greenlet? with rfl | ⟨h₁, h₂⟩
    · cases v with
      | greenlet g => exact .greenlet rfl rfl rfl (.inl rfl) fun _ => hpos
      | _ => exact .other rfl rfl
    · exact .other h₁ h₂
  | clear r =>
    refine hr.rests (Motion.sane (.clear r) hs).covers (.modifyGreenlet fun n g ho => ?_)
    have hz := hs.count_of_grave List.mem_cons_self
    rw [count_of_some ho] at hz
    exact .greenlet rfl rfl rfl (.inr ⟨rfl, hz⟩) fun h => h
  | empty => exact hr
  | erase r => exact hr.rests (Motion.sane (.erase r) hs).covers (.erase r)
  | greenlet hg hst hf hk hc h₀ =>
    exact hr.rests (Motion.sane (.greenlet hg hst hf hk hc h₀) hs).covers
      (.modifyGreenlet fun n g _ => (hst g).near n)
  | hub hh hst hc h₀ =>
    exact hr.rests (Motion.sane (.hub hh hst hc h₀) hs).covers
      (.modifyHub (fun s => ⟨(hst s).thread, (hst s).main, fun hd => (hst s).disposed ▸ hd⟩)
        (.inl (hst _).current))
  | send hh =>
    exact hr.rests (Motion.sane (.send hh) hs).covers
      (.modifyHub (fun _ => ⟨rfl, rfl, fun hd => hd⟩) (.inl rfl))
  | @current hand w h r hh he ht =>
    obtain ⟨hlt, hd⟩ := hs.undisposed he
    refine hr.rests (Motion.sane (.current hh he ht) hs).covers
      (.modifyHub (fun _ => ⟨rfl, rfl, fun hd => hd⟩) (.inr ?_))
    rcases ht with ht | rfl
    · exact ht
    · exact hr.main h hlt hd
  | names a ha hc =>
    obtain rfl := hs.names ha
    exact hr
  | expire =>
    exact hr.rests (Motion.sane .expire hs).covers
      (.beside (.modifyThread hs.seated fun _ => ⟨rfl, rfl⟩) rfl rfl)
  | @vacate hand w hv =>
    refine hr.rests (Motion.sane (.vacate hv) hs).covers (.same rfl rfl ?_ fun i _ hi => ?_)
    · simp [World.modifyThread]
    · unfold World.homeAt World.modifyThread at *
      simp only [Array.getElem?_modify]
      split
      · cases ht : w.threads[i]? with
        | none => simp
        | some t => simp
      · exact hi
  | hold hh hl =>
    exact hr.rests (Motion.sane (.hold hh hl) hs).covers
      (.modifyHub (fun _ => ⟨rfl, rfl, fun hd => hd⟩) (.inl rfl))
  | leave hh =>
    exact hr.rests (Motion.sane (.leave hh) hs).covers
      (.modifyHub (fun _ => ⟨rfl, rfl, fun hd => hd⟩) (.inl rfl))
  | close hh =>
    exact hr.rests (Motion.sane (.close hh) hs).covers
      (.modifyHub (fun _ => ⟨rfl, rfl, fun hd => hd⟩) (.inl rfl))
  | dispose hh =>
    exact hr.rests (Motion.sane (.dispose hh) hs).covers
      (.modifyHub (fun _ => ⟨rfl, rfl, (by simp)⟩) (.inl rfl))

end Motion

namespace World

variable {w w₀ : World} {tr : List World} {r : Ref} {g : Greenlet}

private theorem gone_rests {f : Thread → Thread} (hf : ∀ t, (f t).home = .gone) :
    Rests w (w.modifyThread f) :=
  .same rfl rfl (by simp [World.modifyThread]) fun i _ hi => by
    unfold World.homeAt World.modifyThread at *
    simp only [Array.getElem?_modify]
    split
    · cases ht : w.threads[i]? with
      | none => simp
      | some t =>
        simp only [Option.map_some, Option.getD_some, hf]
        simp
    · exact hi

theorem Rooted.next (hr : w.Rooted) (hs : w.Rested) (hw : w.Manned) (hh : w.isHalted = false)
    (hm : w.InSlots) : w.next.Rooted := by
  have hn := hs.next hw hh hm
  rcases hs.next_cases hw hh hm with ⟨i, -, -, he⟩ | ⟨v, hv, hv', m⟩ | ⟨f, hf, he, -⟩
  · rw [he] at hn ⊢
    exact hr.rests hn.covers (.same rfl rfl (Nat.le_refl _) fun _ _ h => h)
  · refine m.rooted hv' ?_
    rcases hv with rfl | ⟨h, rfl⟩
    · exact hr
    · exact hr.rests hv'.covers (.modifyHub (fun _ => ⟨rfl, rfl, fun hd => hd⟩) (.inl rfl))
  · rw [he] at hn ⊢
    exact hr.rests hn.covers (gone_rests hf)

theorem Starts.rooted (hs : w₀.Starts) : w₀.Rooted := by
  obtain ⟨-, hheap, hhubs, -⟩ := hs.bare
  have hg (r : Ref) : w₀.greenlet? r = none := by simp [World.greenlet?, World.object?, hheap]
  have hsize (h : HubId) : ¬ h < w₀.hubs.size := by simp [hhubs]
  refine ⟨fun h hh => absurd hh (hsize h), fun h _ hh => absurd hh (hsize h), fun r g hr => ?_,
    fun h hh => absurd hh (hsize h), fun h hh => absurd hh (hsize h), fun r => ⟨[], .root ?_⟩⟩
  · rw [hg] at hr
    cases hr
  · rw [World.parent, greenlet_of_none (hg r)]
    rfl

theorem Run.rooted (hs : w₀.Starts) (h : Run w₀ tr w) (hm : ∀ v ∈ tr, v.InSlots) : w.Rooted := by
  induction h with
  | start => exact hs.rooted
  | @step tr v h hw ih =>
    obtain ⟨home, hl⟩ := h.locked hs
    have hm' : ∀ u ∈ tr, u.InSlots := fun u hu => hm u (List.mem_cons_of_mem _ hu)
    exact (ih hm').next (h.rested hs hm') hl.manned hw (hm _ List.mem_cons_self)
  | yield h hi hn ih =>
    exact (ih hm).rests ((h.rested hs hm).yield hi hn).covers
      (.same rfl rfl (Nat.le_refl _) fun _ _ h => h)

/-- Above a greenlet that is in use, or at least has a parent still, are greenlets in use of its
thread, and the topmost one is the main greenlet of its hub. -/
private theorem Rooted.top (hr : w.Rooted) (hc : Covers (·.isCounted = true) [] w) {l : List Ref}
    (hl : w.Lineage r l) (hg : w.greenlet? r = some g) (hm : g.isMain = false)
    (hu : 0 < w.count r ∨ g.parent ≠ none) :
    ∃ m, l.getLast? = some m ∧ (w.greenlet m).isMain = true ∧ (w.hub g.hub).main = m := by
  induction hl generalizing g with
  | root h₀ =>
    rw [parent_of_greenlet? hg] at h₀
    rcases hu with hu | hu
    · exact absurd h₀ ((hr.placed _ g hg).parent hm hu)
    · exact absurd h₀ hu
  | @link r p l h₀ hl ih =>
    have hp : g.parent = some p := parent_of_greenlet? hg ▸ h₀
    have ht := (hr.placed r g hg).link p hp
    have hq := greenlet?_of_thread (Nat.pos_iff_ne_zero.mp (ht ▸ hr.thread_pos hg))
    have hpl := hr.placed p _ hq
    have hhub : (w.greenlet p).hub = g.hub :=
      hr.unique _ _ hpl.hub (hr.placed r g hg).hub
        (by rw [← hpl.thread, ht, (hr.placed r g hg).thread])
    cases hqm : (w.greenlet p).isMain with
    | true =>
      obtain ⟨hnone, hmain⟩ := hpl.main hqm
      have hnil : l = [] := by
        cases hl with
        | root => rfl
        | link h₁ =>
          rw [World.parent, hnone] at h₁
          cases h₁
      exact ⟨p, by rw [hnil]; rfl, hqm, hhub ▸ hmain⟩
    | false =>
      have hd := spare_of_parent h₀
      have := demand_object w p
      have hpos : 0 < w.count p := hc.count_pos (by omega)
      obtain ⟨m, hlast, hmain, hh⟩ := ih hq hqm (.inl hpos)
      refine ⟨m, ?_, hmain, hhub ▸ hh⟩
      rw [List.getLast?_cons, hlast]
      rfl

/-- Between any two steps, the parent links above a greenlet that is no main greenlet come to an
end. They never come back to it, they lead along greenlets in use of its own thread, and they end
at the one main greenlet of this thread, which has no parent. It is so as long as the greenlet is in
use, and until its link is dropped when it is destroyed. -/
theorem Run.lineage (hs : w₀.Starts) (h : Run w₀ tr w) (hm : ∀ v ∈ tr, v.InSlots)
    (hg : w.greenlet? r = some g) (hn : g.isMain = false) (hu : 0 < w.count r ∨ g.parent ≠ none) :
    ∃ l, w.Lineage r l ∧ r ∉ l ∧ l.Nodup ∧
      (∀ q ∈ l, 0 < w.count q ∧ (w.greenlet q).thread = g.thread) ∧
      ∃ m, l.getLast? = some m ∧ (w.greenlet m).isMain = true ∧ w.parent m = none ∧
        ∀ q u, w.greenlet? q = some u → u.isMain = true → u.thread = g.thread → q = m := by
  have hr := h.rooted hs hm
  have hc := (h.rested hs hm).covers
  obtain ⟨l, hl⟩ := hr.lineages r
  obtain ⟨m, hlast, hmain, hh⟩ := hr.top hc hl hg hn hu
  have hthread {q : Ref} (hq : q ∈ l) : (w.greenlet q).thread = g.thread := by
    rw [hr.thread_of_mem hl hq, greenlet_of_some hg]
  have hmem : m ∈ l := List.mem_of_getLast? hlast
  have hmg := greenlet?_of_thread (Nat.pos_iff_ne_zero.mp (hthread hmem ▸ hr.thread_pos hg))
  refine ⟨l, hl, hl.notMem, hl.nodup, fun q hq => ⟨?_, hthread hq⟩, m, hlast, hmain,
    ((hr.placed m _ hmg).main hmain).1, fun q u hq hqm hqt => ?_⟩
  · obtain ⟨u, hu⟩ := hl.exists_child hq
    have hd := spare_of_parent hu
    have := demand_object w q
    exact hc.count_pos (by omega)
  · have hpl := hr.placed q u hq
    have hpm := hr.placed r g hg
    have hub : u.hub = g.hub :=
      hr.unique _ _ hpl.hub hpm.hub (by rw [← hpl.thread, hqt, hpm.thread])
    rw [← (hpl.main hqm).2, hub, hh]

/-- The first thread moves a greenlet under another one, which it drops. -/
def moved : World :=
  Script.start .empty []
    [.create "p" "p" [] [] none none, .create "c" "c" [] [] none none, .setParent "c" "p",
      .drop "p"] 500

theorem Run.lineage_moved : ∃ tr l, Run moved tr (moved.run 24) ∧
    (moved.run 24).parent 2 = some 1 ∧ (moved.run 24).Lineage 2 l ∧ 2 ∉ l ∧
    (∀ q ∈ l, 0 < (moved.run 24).count q) ∧ ∃ m, l.getLast? = some m ∧
      ((moved.run 24).greenlet m).isMain = true := by
  obtain ⟨tr, h, hf⟩ := (@Run.start moved).run_all (p := OnFacade) (n := 24) (by decide +kernel)
  rw [List.append_nil] at h
  obtain ⟨l, hl, hn, -, hq, m, hlast, hmain, -⟩ := Run.lineage (.script ..) h
    (fun v hv => (hf v hv).inSlots)
    (greenlet?_of_thread (r := 2) (by decide +kernel)) (by decide +kernel) (.inl (by decide +kernel))
  exact ⟨tr, l, h, by decide +kernel, hl, hn, fun q hq' => (hq q hq').1, m, hlast, hmain⟩

end World

end Switchyard
