import Switchyard.Proofs.Ancestry
import Switchyard.Proofs.Motion.Rooted

/-!
# Two ways to a hub

A greenlet knows the hub it was made on, and the main greenlet at the root above it knows a hub as
well. Since links stay within a thread and a thread has one hub, both are the same.
-/

namespace Switchyard

namespace World

variable {w w₀ : World} {tr : List World} {r : Ref} {g : Greenlet} {l : List Ref}

/-- The hub that `g` was made on, if it still has an owner. -/
def directOwner (w : World) (g : Greenlet) : Except SwitchError HubId :=
  if w.hubLives g.hub then .ok g.hub else .error .threadExited

theorem Lineage.parent_ne_none (h : w.Lineage r l) {n : Nat} (hn : n < l.length) {q : Ref}
    (hq : q ∈ l.take n) : w.parent q ≠ none := by
  induction h generalizing n with
  | root => exact absurd hn (Nat.not_lt_zero n)
  | @link _ p l _ hl ih =>
    cases n with
    | zero => simp at hq
    | succ n =>
      rw [List.length_cons, Nat.add_lt_add_iff_right] at hn
      rw [List.take_succ_cons] at hq
      rcases List.mem_cons.mp hq with rfl | hq
      · cases hl with
        | root => exact absurd hn (Nat.not_lt_zero n)
        | link h₁ => simp [h₁]
      · exact ih hn hq

theorem Rooted.hub_of_main (hr : w.Rooted) (hg : w.greenlet? r = some g) (hl : w.Lineage r l)
    {m : Ref} (hm : m ∈ l) : (w.greenlet m).hub = g.hub := by
  have ht : (w.greenlet m).thread = g.thread := by
    rw [hr.thread_of_mem hl hm, greenlet_of_some hg]
  have hmg := greenlet?_of_thread (Nat.pos_iff_ne_zero.mp (ht ▸ hr.thread_pos hg))
  have hpm := hr.placed m _ hmg
  have hpr := hr.placed r g hg
  exact hr.unique _ _ hpm.hub hpr.hub (by rw [← hpm.thread, ht, hpr.thread])

/-- A bounded walk to the root comes to the hub that the greenlet was made on, or is too short. -/
theorem Rooted.ownerWithin (hr : w.Rooted) (hg : w.greenlet? r = some g) (hl : w.Lineage r l)
    (hroot : (w.greenlet (l.getLast?.getD r)).isMain = true) (limit : Nat) :
    ownerWithin limit w r =
      if l.length ≤ limit then w.directOwner g else .error (.nestingTooDeep limit) := by
  have hgr : w.greenlet r = g := greenlet_of_some hg
  by_cases hm : g.isMain = true
  · have hnil : l = [] := by
      cases hl with
      | root => rfl
      | link h₁ => rw [parent_of_greenlet? hg, ((hr.placed r g hg).main hm).1] at h₁; cases h₁
    simp [World.ownerWithin, hgr, hm, hnil, directOwner]
  · have hwalk := w.findAncestor_eq (fun q => (w.greenlet q).isMain) limit r
    rw [hl.ancestors_eq, hl.ancestors_eq] at hwalk
    unfold World.ownerWithin ancestorWithin
    rw [hgr, if_neg hm, hwalk]
    by_cases hlen : l.length ≤ limit
    · have hlast : ∃ m ∈ l, (w.greenlet m).isMain = true := by
        cases hlast : l.getLast? with
        | none => rw [hlast, Option.getD_none, hgr] at hroot; exact absurd hroot hm
        | some m => exact ⟨m, List.mem_of_getLast? hlast, by simpa [hlast] using hroot⟩
      obtain ⟨q, hq⟩ := Option.isSome_iff_exists.mp (List.find?_isSome.mpr hlast)
      have hhub := hr.hub_of_main hg hl (List.mem_of_find?_eq_some hq)
      rw [List.take_of_length_le hlen, hq, if_pos hlen, directOwner, ← hhub]
    · have hnone : (l.take limit).find? (fun q => (w.greenlet q).isMain) = none := by
        refine List.find?_eq_none.mpr fun q hq hqm => ?_
        have hp := hl.parent_ne_none (Nat.lt_of_not_le hlen) hq
        obtain ⟨k, hk, hkp⟩ := greenlet?_of_parent (Option.ne_none_iff_exists'.mp hp).choose_spec
        rw [greenlet_of_some hk] at hqm
        rw [((hr.placed q k hk).main hqm).1] at hkp
        cases hkp
      have hlong : ¬ (l.take (limit + 1)).length ≤ limit := by
        rw [List.length_take]
        omega
      rw [hnone, if_neg hlong, if_neg hlen]

/-- Between any two steps of a run in which each thread has one hub, a walk of at most `limit`
links from a greenlet to the main greenlet above it finds the hub that the greenlet was made on, or
that this hub is gone. It is too short exactly if there are more links than that. -/
theorem Run.owners (hs : w₀.Starts) (h : Run w₀ tr w) (hm : ∀ v ∈ tr, v.InSlots)
    (hg : w.greenlet? r = some g) (hl : w.Lineage r l)
    (hroot : (w.greenlet (l.getLast?.getD r)).isMain = true) (limit : Nat) :
    ownerWithin limit w r =
      if l.length ≤ limit then w.directOwner g else .error (.nestingTooDeep limit) :=
  (h.rooted hs hm).ownerWithin hg hl hroot limit

/-- The greenlet `c` is three links below the main greenlet of its thread. -/
theorem Run.owners_chained : ∃ tr, Run chained tr (chained.run 24) ∧ (∀ v ∈ tr, v.InSlots) ∧
    (chained.run 24).Lineage 3 [2, 1, 0] ∧
    ownerWithin 3 (chained.run 24) 3 = .ok 0 ∧
    ownerWithin 2 (chained.run 24) 3 = .error (.nestingTooDeep 2) := by
  obtain ⟨tr, h, hm⟩ := (@Run.start chained).run_all (p := InSlots) (n := 24) (by decide +kernel)
  rw [List.append_nil] at h
  have hl : (chained.run 24).Lineage 3 [2, 1, 0] :=
    .link (by decide +kernel) (.link (by decide +kernel) (.link (by decide +kernel)
      (.root (by decide +kernel))))
  have hg := greenlet?_of_thread (w := chained.run 24) (r := 3) (by decide +kernel)
  have howner := Run.owners (.script ..) h hm hg hl (by decide +kernel)
  have hlives : (chained.run 24).hubLives ((chained.run 24).greenlet 3).hub = true := by
    decide +kernel
  have hhub : ((chained.run 24).greenlet 3).hub = 0 := by decide +kernel
  refine ⟨tr, h, hm, hl, ?_, howner 2⟩
  have hthree : ([2, 1, 0] : List Ref).length ≤ 3 := Nat.le_refl 3
  rw [howner 3, if_pos hthree, directOwner, if_pos hlives, hhub]

end World

end Switchyard
