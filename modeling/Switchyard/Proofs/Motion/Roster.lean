import Switchyard.Proofs.Motion.Graves

/-!
# What a hub lists

The list of a hub holds no references. It names the greenlets of the hub all the same, since each of
them strikes itself off when it loses its last reference. So it lacks those that are about to be
freed, and those that a panic has kept from it.
-/

namespace Switchyard

namespace World

variable {w w₀ : World} {tr : List World} {h : HubId} {r : Ref}

/-- The object at `r` is a greenlet that was made on the hub `h`, and has not been freed. -/
def isNative (w : World) (h : HubId) (r : Ref) : Bool :=
  match w.object? r with
  | some ⟨_, .greenlet g⟩ => !g.isMain && g.hub == h
  | _ => false

/-- All greenlets that were made on the hub `h` and have not been freed, by age. -/
def roster (w : World) (h : HubId) : List Ref := (List.range w.heap.size).filter (w.isNative h)

theorem isNative_iff : w.isNative h r = true ↔
    ∃ n g, w.object? r = some ⟨n, .greenlet g⟩ ∧ g.isMain = false ∧ g.hub = h := by
  unfold isNative
  split
  · rename_i n g ho
    simp [ho]
  · rename_i hn
    refine iff_of_false nofun ?_
    rintro ⟨n, g, ho, -⟩
    exact hn n g ho

theorem mem_roster : r ∈ w.roster h ↔ w.isNative h r = true := by
  unfold roster
  rw [List.mem_filter, List.mem_range]
  refine and_iff_right_of_imp fun hn => ?_
  obtain ⟨n, g, ho, -⟩ := isNative_iff.mp hn
  exact lt_size_of_object? ho

theorem nodup_roster (w : World) (h : HubId) : (w.roster h).Nodup :=
  List.nodup_range.filter _

theorem enrolled_iff : w.Enrolled h r ↔ r ∈ w.roster h ∧ ¬ ∃ v, w.object? r = some ⟨0, v⟩ := by
  rw [mem_roster, isNative_iff]
  constructor
  · rintro ⟨n, g, ho, hn, hm, hh⟩
    refine ⟨⟨n, g, ho, hm, hh⟩, ?_⟩
    rintro ⟨v, h₀⟩
    rw [ho] at h₀
    cases h₀
    exact Nat.lt_irrefl 0 hn
  · rintro ⟨⟨n, g, ho, hm, hh⟩, h₀⟩
    refine ⟨n, g, ho, Nat.pos_of_ne_zero ?_, hm, hh⟩
    rintro rfl
    exact h₀ ⟨_, ho⟩

theorem Registry.not_mem (hr : w.Registry) (h₀ : w.count r = 0) (h : HubId) :
    r ∉ (w.hub h).nodes := by
  intro hm
  cases hc : (w.hub h).closed with
  | true =>
    rw [hr.closed h hc] at hm
    cases hm
  | false =>
    obtain ⟨n, g, ho, hn, -⟩ := (hr.mem h r hc).mp hm
    rw [count_of_some ho] at h₀
    exact absurd h₀ (Nat.ne_of_gt hn)

/-- Between any two steps, an open hub lists the greenlets that were made on it and have not been
freed, each one once, but for those that a stack is to destroy or free and those that a panic has
left behind. A closed hub lists nothing. Those that are missing are still there, without references,
listed by no hub, and without a stack. -/
theorem Run.registry (hs : w₀.Starts) (h : Run w₀ tr w) (hm : ∀ v ∈ tr, v.InSlots) :
    (∀ h, (w.hub h).closed = false →
      (w.hub h).nodes.Perm ((w.roster h).filter fun r => !w.buries r && !(leaked tr).contains r) ∧
      (w.hub h).nodes.length + (w.roster h).countP (fun r => w.buries r || (leaked tr).contains r) =
        (w.roster h).length) ∧
    (∀ h, (w.hub h).closed = true → (w.hub h).nodes = []) ∧
    ∀ r, w.buries r = true ∨ r ∈ leaked tr →
      ∃ v, w.object? r = some ⟨0, v⟩ ∧ (∀ h, r ∉ (w.hub h).nodes) ∧
        ∀ g, v = .greenlet g → g.isMain = false → g.fiber = none := by
  have hr := (h.rested hs hm).registry
  have hu (r : Ref) := h.unreferred_iff hs hm (r := r)
  refine ⟨fun h ho => ?_, hr.closed, fun r ht => ?_⟩
  · have hp : (w.hub h).nodes.Perm
        ((w.roster h).filter fun r => !w.buries r && !(leaked tr).contains r) := by
      refine (List.perm_ext_iff_of_nodup (hr.nodup h) ((nodup_roster w h).filter _)).mpr fun r => ?_
      rw [hr.mem h r ho, enrolled_iff, hu r, List.mem_filter]
      simp
    refine ⟨hp, ?_⟩
    rw [hp.length_eq, ← List.countP_eq_length_filter, List.length_eq_countP_add_countP
      (fun r => !w.buries r && !(leaked tr).contains r) (l := w.roster h)]
    refine congrArg _ (List.countP_congr fun r _ => ?_)
    simp [imp_iff_not_or]
  · obtain ⟨v, ho⟩ := (hu r).mpr ht
    refine ⟨v, ho, hr.not_mem (count_of_some ho), ?_⟩
    rintro g rfl hg
    exact hr.buried r g ho hg

/-- The first thread drops a greenlet that never ran while another one is suspended. -/
def dropping : World :=
  Script.start .empty [("p", [.switch "@main" (.built [] []) none none]), ("u", [])]
    [.create "p" "p" [] [] none none, .switch "p" (.built [] []) none none,
      .create "u" "u" [] [] none none, .drop "u"] 500

theorem Run.registry_dropping : ∃ tr, Run dropping tr (dropping.run 48) ∧
    ((dropping.run 48).hub 0).nodes = [1] ∧ (dropping.run 48).roster 0 = [1, 2] ∧
    ∃ v, (dropping.run 48).object? 2 = some ⟨0, v⟩ ∧ ∀ h, 2 ∉ ((dropping.run 48).hub h).nodes := by
  obtain ⟨tr, h, hm⟩ := (@Run.start dropping).run_all (p := InSlots) (n := 48) (by decide +kernel)
  rw [List.append_nil] at h
  obtain ⟨hp, -, hf⟩ := Run.registry (.script ..) h hm
  obtain ⟨v, ho, hn, -⟩ := hf 2 (.inl (by decide +kernel))
  exact ⟨tr, h, by decide +kernel, by decide +kernel, v, ho, hn⟩

/-- A greenlet that has not started is dropped, and what it captured panics. -/
def leaking : World :=
  Script.start .empty [("u", [])]
    [.create "u" "u" [⟨"c", [.panic "boom" .text]⟩] [] none none,
      .nest (.attemptPanic false) [.drop "u"]] 500

/-- The hub has forgotten it, and its storage is never freed. -/
theorem unlisted_leaking : ∃ tr, Run leaking tr (leaking.run 25) ∧ (∀ v ∈ tr, v.InSlots) ∧
    ((leaking.run 25).hub 0).closed = false ∧ (leaking.run 25).roster 0 = [1] ∧
    ((leaking.run 25).hub 0).nodes = [] ∧ (leaking.run 25).buries 1 = false := by
  obtain ⟨tr, h, hm⟩ := (@Run.start leaking).run_all (p := InSlots) (n := 25) (by decide +kernel)
  rw [List.append_nil] at h
  refine ⟨tr, h, hm, ?_⟩
  decide +kernel

end World

end Switchyard
