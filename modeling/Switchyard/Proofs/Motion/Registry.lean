import Switchyard.Proofs.Motion.Basic

/-!
# The registry of a hub

A hub lists the greenlets that were made on it and are referred to, without references of its own.
A greenlet that nothing refers to has no stack, and no hub lists it.
-/

namespace Switchyard

/-- What hubs list of the object is the same after an update. -/
inductive Object.Kin : Object → Object → Prop where
  | other {o o' : Object} (h : o.value.greenlet? = none) (h' : o'.value.greenlet? = none) : Kin o o'
  | greenlet {n n' : Nat} {g g' : Greenlet} (hm : g'.isMain = g.isMain) (hh : g'.hub = g.hub)
      (hf : g'.fiber = none ∨ g'.fiber = g.fiber ∨ 0 < n)
      (hn : g.isMain = false → (0 < n ↔ 0 < n')) : Kin ⟨n, .greenlet g⟩ ⟨n', .greenlet g'⟩

theorem Object.Kin.refl (o : Object) : o.Kin o := by
  obtain ⟨n, v⟩ := o
  cases v with
  | greenlet g => exact .greenlet rfl rfl (.inr (.inl rfl)) fun _ => Iff.rfl
  | _ => exact .other rfl rfl

namespace World

variable {w w' : World} {h : HubId} {r : Ref}

/-- The greenlet at `r` was made on the hub `h`, and something refers to it. -/
def Enrolled (w : World) (h : HubId) (r : Ref) : Prop :=
  ∃ n g, w.object? r = some ⟨n, .greenlet g⟩ ∧ 0 < n ∧ g.isMain = false ∧ g.hub = h

/-- Each open hub lists the greenlets enrolled with it, once each. -/
structure Registry (w : World) : Prop where
  known : ∀ r n g, w.object? r = some ⟨n, .greenlet g⟩ → g.hub < w.hubs.size
  closed : ∀ h, (w.hub h).closed = true → (w.hub h).nodes = []
  nodup : ∀ h, (w.hub h).nodes.Nodup
  mem : ∀ h r, (w.hub h).closed = false → (r ∈ (w.hub h).nodes ↔ w.Enrolled h r)
  buried : ∀ r g, w.object? r = some ⟨0, .greenlet g⟩ → g.isMain = false → g.fiber = none

theorem hub_lt_of_open (h₀ : (w.hub h).closed = false) : h < w.hubs.size := by
  by_contra hn
  simp [World.hub, Array.getElem?_eq_none (Nat.le_of_not_lt hn)] at h₀

namespace Registry

theorem update (hr : w.Registry) (hsize : w'.hubs.size = w.hubs.size)
    (hub : ∀ h, (w'.hub h).closed = (w.hub h).closed ∧ (w'.hub h).nodes = (w.hub h).nodes)
    (hobj : ∀ q o', w'.object? q = some o' → ∃ o, w.object? q = some o ∧ o.Kin o')
    (hobj' : ∀ q o, w.object? q = some o → (∃ o', w'.object? q = some o' ∧ o.Kin o') ∨
      ∀ g, o.value = .greenlet g → g.isMain = false → o.count = 0) : w'.Registry := by
  have hen (h : HubId) (q : Ref) : w'.Enrolled h q ↔ w.Enrolled h q := by
    constructor
    · rintro ⟨n', g', ho', hn', hm', hh'⟩
      obtain ⟨o, ho, hk⟩ := hobj q _ ho'
      cases hk with
      | other _ hx => cases hx
      | @greenlet n _ g _ hm hh _ hn =>
        rw [hm] at hm'
        exact ⟨n, g, ho, (hn hm').mpr hn', hm', hh.symm.trans hh'⟩
    · rintro ⟨n, g, ho, hpos, hm, hh⟩
      rcases hobj' q _ ho with ⟨o', ho', hk⟩ | hz
      · cases hk with
        | other hx _ => cases hx
        | @greenlet _ n' _ g' hm' hh' _ hn =>
          exact ⟨n', g', ho', (hn hm).mp hpos, hm'.trans hm, hh'.trans hh⟩
      · exact absurd (hz g rfl hm) (Nat.ne_of_gt hpos)
  constructor
  · intro q n g ho
    obtain ⟨o, ho, hk⟩ := hobj q _ ho
    cases hk with
    | other _ hx => cases hx
    | greenlet hm hh _ _ =>
      rw [hh, hsize]
      exact hr.known _ _ _ ho
  · intro h hc
    rw [(hub h).2]
    exact hr.closed h ((hub h).1 ▸ hc)
  · intro h
    rw [(hub h).2]
    exact hr.nodup h
  · intro h q hc
    rw [(hub h).2, hen]
    exact hr.mem h q ((hub h).1 ▸ hc)
  · intro q g ho hm
    obtain ⟨o, ho, hk⟩ := hobj q _ ho
    cases hk with
    | other _ hx => cases hx
    | @greenlet n _ g₀ _ hm' hh hf hn =>
      have hz : n = 0 := Nat.eq_zero_of_not_pos fun hp => absurd ((hn (hm' ▸ hm)).mp hp) (Nat.lt_irrefl 0)
      subst hz
      have h₀ := hr.buried q g₀ ho (hm' ▸ hm)
      rcases hf with hf | hf | hf
      · exact hf
      · exact hf.trans h₀
      · exact absurd hf (Nat.lt_irrefl 0)

theorem same (hr : w.Registry) (hsize : w'.hubs.size = w.hubs.size)
    (hub : ∀ h, (w'.hub h).closed = (w.hub h).closed ∧ (w'.hub h).nodes = (w.hub h).nodes)
    (hobj : w'.object? = w.object?) : w'.Registry :=
  hr.update hsize hub (fun q o ho => ⟨o, by rw [← hobj]; exact ho, .refl o⟩)
    fun q o ho => .inl ⟨o, by rw [hobj]; exact ho, .refl o⟩

theorem modifyHub (hr : w.Registry) {f : Hub → Hub}
    (hf : (f (w.hub h)).closed = (w.hub h).closed ∧ (f (w.hub h)).nodes = (w.hub h).nodes) :
    (w.modifyHub h f).Registry := by
  refine hr.same (by simp [World.modifyHub]) (fun k => ?_) rfl
  rcases hub_modifyHub_cases (w := w) (h := k) h f with he | ⟨rfl, he⟩
  · rw [he]
    exact ⟨rfl, rfl⟩
  · rw [he]
    exact hf

theorem modifyObject (hr : w.Registry) {f : Object → Object}
    (hf : ∀ o, w.object? r = some o → o.Kin (f o)) : (w.modifyObject r f).Registry := by
  refine hr.update rfl (fun _ => ⟨rfl, rfl⟩) (fun q o' ho => ?_) fun q o ho => .inl ?_
  · rw [object?_modifyObject] at ho
    split at ho
    · rename_i hq
      subst hq
      obtain ⟨o, hr', rfl⟩ := Option.map_eq_some_iff.mp ho
      exact ⟨o, hr', hf o hr'⟩
    · exact ⟨o', ho, .refl o'⟩
  · rw [object?_modifyObject]
    split
    · rename_i hq
      subst hq
      exact ⟨f o, by rw [ho]; rfl, hf o ho⟩
    · exact ⟨o, ho, .refl o⟩

theorem erase (hr : w.Registry) (h₀ : w.count r = 0) : (w.erase r).Registry := by
  refine hr.update rfl (fun _ => ⟨rfl, rfl⟩) (fun q o' ho => ?_) fun q o ho => ?_
  · rw [object?_erase] at ho
    split at ho
    · cases ho
    · exact ⟨o', ho, .refl o'⟩
  · by_cases hq : r = q
    · subst hq
      refine .inr fun _ _ _ => ?_
      rwa [count_of_some ho] at h₀
    · exact .inl ⟨o, by rw [object?_erase, if_neg hq]; exact ho, .refl o⟩

theorem close (hr : w.Registry) (h : HubId) :
    (w.modifyHub h fun s => { s with closed := true, nodes := [] }).Registry := by
  have hcase (k : HubId) := hub_modifyHub_cases (w := w) (h := k) h fun s =>
    { s with closed := true, nodes := [] }
  constructor
  · intro q n g ho
    rw [show (w.modifyHub h fun s => { s with closed := true, nodes := [] }).hubs.size = w.hubs.size
      by simp [World.modifyHub]]
    exact hr.known q n g ho
  · intro k hk
    rcases hcase k with he | ⟨-, he⟩
    · rw [he] at hk ⊢
      exact hr.closed k hk
    · rw [he]
  · intro k
    rcases hcase k with he | ⟨-, he⟩
    · rw [he]
      exact hr.nodup k
    · rw [he]
      exact List.nodup_nil
  · intro k q hk
    rcases hcase k with he | ⟨-, he⟩
    · rw [he] at hk ⊢
      exact hr.mem k q hk
    · rw [he] at hk
      cases hk
  · exact hr.buried

theorem alloc (hr : w.Registry) {v : Value}
    (hv : ∀ g, v = .greenlet g → g.isMain = true ∧ g.hub < w.hubs.size) :
    (w.alloc v).2.Registry := by
  have hen (h : HubId) (q : Ref) : (w.alloc v).2.Enrolled h q ↔ w.Enrolled h q := by
    unfold Enrolled
    simp only [object?_alloc]
    split
    · rename_i hq
      subst hq
      rw [object?_size]
      constructor
      · rintro ⟨n, g, ho, -, hm, -⟩
        cases ho
        exact absurd (hv g rfl).1 (by simp [hm])
      · rintro ⟨n, g, ho, -⟩
        cases ho
    · exact Iff.rfl
  constructor
  · intro q n g ho
    rw [object?_alloc] at ho
    split at ho
    · cases ho
      exact (hv g rfl).2
    · exact hr.known q n g ho
  · exact hr.closed
  · exact hr.nodup
  · intro h q hc
    rw [hen]
    exact hr.mem h q hc
  · intro q g ho
    rw [object?_alloc] at ho
    split at ho
    · cases ho
    · exact hr.buried q g ho

theorem pushHub (hr : w.Registry) {s : Hub} (hs : s.nodes = []) :
    { w with hubs := w.hubs.push s }.Registry := by
  have hhub (k : HubId) : { w with hubs := w.hubs.push s }.hub k =
      if k = w.hubs.size then s else w.hub k := by
    unfold World.hub
    simp only [Array.getElem?_push]
    split
    · rfl
    · rfl
  constructor
  · intro q n g ho
    simp only [Array.size_push]
    exact Nat.lt_succ_of_lt (hr.known q n g ho)
  · intro k
    rw [hhub]
    split
    · exact fun _ => hs
    · exact hr.closed k
  · intro k
    rw [hhub]
    split
    · exact hs ▸ List.nodup_nil
    · exact hr.nodup k
  · intro k q
    rw [hhub]
    split
    · rename_i hk
      intro _
      rw [hs]
      refine iff_of_false (List.not_mem_nil) ?_
      rintro ⟨n, g, ho, -, -, hh⟩
      exact absurd (hr.known q n g ho) (by rw [hh, hk]; exact Nat.lt_irrefl _)
    · exact hr.mem k q
  · exact hr.buried

theorem enroll (hr : w.Registry) {g : Greenlet} (hm : g.isMain = false)
    (hc : (w.hub g.hub).closed = false) :
    ((w.alloc (.greenlet g)).2.modifyHub g.hub fun s =>
      { s with nodes := w.heap.size :: s.nodes }).Registry := by
  have hlt := hub_lt_of_open hc
  have hnew (h : HubId) : ¬ w.Enrolled h w.heap.size := by
    rintro ⟨n, g, ho, -⟩
    rw [object?_size] at ho
    cases ho
  have hhub (k : HubId) : ((w.alloc (.greenlet g)).2.modifyHub g.hub fun s =>
      { s with nodes := w.heap.size :: s.nodes }).hub k =
      if g.hub = k then { w.hub k with nodes := w.heap.size :: (w.hub k).nodes } else w.hub k := by
    exact hub_modifyHub_of_lt (w := (w.alloc (.greenlet g)).2) hlt _ k
  constructor
  · intro q n g' ho
    rw [show ((w.alloc (.greenlet g)).2.modifyHub g.hub fun s =>
      { s with nodes := w.heap.size :: s.nodes }).hubs.size = w.hubs.size by
        simp [World.modifyHub, World.alloc]]
    change (w.alloc (.greenlet g)).2.object? q = _ at ho
    rw [object?_alloc] at ho
    split at ho
    · cases ho
      exact hlt
    · exact hr.known q n g' ho
  · intro k
    rw [hhub]
    split
    · subst_vars
      intro hk
      exact absurd hk (by simp [hc])
    · exact hr.closed k
  · intro k
    rw [hhub]
    split
    · subst_vars
      refine List.nodup_cons.mpr ⟨fun hq => ?_, hr.nodup _⟩
      exact hnew _ ((hr.mem _ _ hc).mp hq)
    · exact hr.nodup k
  · intro k q
    have hen : ((w.alloc (.greenlet g)).2.modifyHub g.hub fun s =>
        { s with nodes := w.heap.size :: s.nodes }).Enrolled k q ↔
        w.Enrolled k q ∨ q = w.heap.size ∧ g.hub = k := by
      change (w.alloc (.greenlet g)).2.Enrolled k q ↔ _
      by_cases hq : q = w.heap.size
      · subst hq
        refine ⟨fun h => .inr ⟨rfl, ?_⟩, fun h => ?_⟩
        · obtain ⟨n, g', ho, -, -, hh⟩ := h
          rw [object?_alloc, if_pos rfl] at ho
          cases ho
          exact hh
        · obtain h | ⟨-, h⟩ := h
          · exact absurd h (hnew k)
          · exact ⟨1, g, by rw [object?_alloc, if_pos rfl], Nat.one_pos, hm, h⟩
      · unfold Enrolled
        simp [object?_alloc, hq]
    rw [hhub, hen]
    split
    · subst_vars
      intro _
      rw [List.mem_cons, hr.mem _ q hc]
      simp only [and_true]
      exact or_comm
    · rename_i hne
      intro hk
      rw [hr.mem k q hk]
      simp [hne]
  · intro q g' ho
    change (w.alloc (.greenlet g)).2.object? q = _ at ho
    rw [object?_alloc] at ho
    split at ho
    · cases ho
    · exact hr.buried q g' ho

/-- A greenlet without a stack loses its last reference. Its hub strikes it off, unless the hub is
gone and listed nothing before. -/
theorem retire (hr : w.Registry) {n : Nat} {g : Greenlet}
    (ho : w.object? r = some ⟨n, .greenlet g⟩) (h₁ : n ≤ 1) (hf : g.fiber = none)
    (hl : w.hubLives g.hub = false → (w.hub g.hub).closed = true) :
    (if w.hubLives g.hub then (w.unref r).forget g.hub r else w.unref r).Registry := by
  generalize hv : (if w.hubLives g.hub then (w.unref r).forget g.hub r else w.unref r) = v
  have hobj (q : Ref) : v.object? q = if r = q then some ⟨0, .greenlet g⟩ else w.object? q := by
    have h₀ : v.object? q = (w.unref r).object? q := by
      rw [← hv]
      split <;> rfl
    rw [h₀, unref, object?_modifyObject]
    split
    · subst_vars
      rw [ho]
      simp [Nat.sub_eq_zero_of_le h₁]
    · rfl
  have hsize : v.hubs.size = w.hubs.size := by
    rw [← hv]
    split
    · simp [forget, World.modifyHub, unref, World.modifyObject]
    · rfl
  have hhub (k : HubId) : (v.hub k).closed = (w.hub k).closed ∧
      (v.hub k).nodes = if g.hub = k then (w.hub k).nodes.erase r else (w.hub k).nodes := by
    rw [← hv]
    split
    · have hlt : g.hub < (w.unref r).hubs.size := hr.known _ _ _ ho
      unfold forget
      rw [hub_modifyHub_of_lt hlt]
      split <;> exact ⟨rfl, rfl⟩
    · rename_i hn
      refine ⟨rfl, ?_⟩
      split
      · subst_vars
        have := hr.closed _ (hl (by simpa using hn))
        change (w.hub _).nodes = _
        rw [this]
        rfl
      · rfl
  have hen (k : HubId) (q : Ref) : v.Enrolled k q ↔ w.Enrolled k q ∧ q ≠ r := by
    by_cases hq : r = q
    · subst hq
      refine ⟨?_, fun h => absurd rfl h.2⟩
      rintro ⟨n', g', ho', hn', -⟩
      rw [hobj, if_pos rfl] at ho'
      cases ho'
      exact absurd hn' (Nat.lt_irrefl 0)
    · unfold Enrolled
      simp only [hobj, if_neg hq, and_iff_left (Ne.symm hq)]
  constructor
  · intro q n' g' ho'
    rw [hobj] at ho'
    rw [hsize]
    split at ho'
    · cases ho'
      exact hr.known _ _ _ ho
    · exact hr.known _ _ _ ho'
  · intro k hk
    rw [(hhub k).1] at hk
    rw [(hhub k).2, hr.closed k hk]
    split <;> rfl
  · intro k
    rw [(hhub k).2]
    split
    · exact (hr.nodup k).erase r
    · exact hr.nodup k
  · intro k q hk
    rw [(hhub k).1] at hk
    rw [(hhub k).2, hen]
    split
    · rw [(hr.nodup k).mem_erase_iff, hr.mem k q hk, and_comm]
    · rename_i hne
      rw [hr.mem k q hk]
      refine (and_iff_left_of_imp ?_).symm
      rintro ⟨n', g', ho', -, -, hh⟩ rfl
      rw [ho] at ho'
      cases ho'
      exact hne hh
  · intro q g' ho' hm'
    rw [hobj] at ho'
    split at ho'
    · cases ho'
      exact hf
    · exact hr.buried q g' ho' hm'

end Registry

end World

end Switchyard
