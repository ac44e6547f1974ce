import Switchyard.Proofs.Lock.Step
import Switchyard.Proofs.Run

/-!
# The lock where stacks change hands

A transfer between stacks leaves the lock alone. Whether the transferring thread holds the lock
there is decided by the destructions that it has begun and not ended.
-/

namespace Switchyard

namespace World

variable {w₀ w : World} {tr : List World}

def begins (w : World) : Bool :=
  match w.thread.stack with
  | .task (.destroy _) :: _ => true
  | _ => false

def ends (w : World) : Bool :=
  match w.thread.stack with
  | .task t :: _ => t.isUnlock
  | _ => false

def begun (i : ThreadId) (tr : List World) : Nat := tr.countP fun w => w.active == i && w.begins

def ended (i : ThreadId) (tr : List World) : Nat := tr.countP fun w => w.active == i && w.ends

/-- The next step enters a fiber, leaves one, or puts one up for unwinding: the fibers that the
active thread stands on change. -/
def transfers (w : World) : Prop :=
  w.isHalted = false ∧ Item.bases (w.next.stackAt (w.active - 1)) ≠ Item.bases w.thread.stack

instance (w : World) : Decidable w.transfers := inferInstanceAs (Decidable (_ ∧ _))

private theorem locked_fresh (hl : w.lock = {}) (hh : w.heap = #[]) (hf : w.fibers = #[])
    (hx : w.lost = []) (ht : w.threads = #[{}]) (ha : w.active = 1) :
    Locked (fun _ => 0) 0 w := by
  have hs (i : Nat) : w.stackAt i = [] := by
    cases i <;> simp [stackAt, ht]
  have hb (f : FiberId) : w.baseCount f = 0 := by simp [baseCount, ht, total]
  refine ⟨⟨⟨by simp [ha], by simp [ha, ht]⟩, fun i t hi hpos => ?_⟩, ?_, by simp [hl],
    fun h => absurd h (Nat.lt_irrefl 0), fun i => by rw [hs]; exact .nil, fun f s h => ?_,
    fun r p h => ?_, fun f => by simp [hb], fun f h => by simp [hb] at h⟩
  · cases i with
    | zero => omega
    | succ i => simp [ht] at hi
  · simp [unfinished, hl, ht, hf, hx, total]
  · simp [hf] at h
  · simp [greenlet_eq, greenlet?, object?, hh, Greenlet.absent] at h

theorem Starts.locked (h : w.Starts) : Locked (fun _ => 0) 0 w := by
  cases h with
  | script =>
    exact Locked.pushLight (w := { World.fresh _ with bodies := _, fuel := _ })
      (locked_fresh rfl rfl rfl rfl rfl rfl) rfl
  | rally => exact Locked.pushLight (w := World.fresh _) (locked_fresh rfl rfl rfl rfl rfl rfl) rfl

theorem Run.locked (h₀ : w₀.Starts) (h : Run w₀ tr w) : ∃ home, Locked home 0 w := by
  induction h with
  | start => exact ⟨_, h₀.locked⟩
  | step _ hw ih =>
    obtain ⟨home, hl⟩ := ih
    exact hl.next hw
  | yield _ hi hs ih =>
    obtain ⟨home, hl⟩ := ih
    exact ⟨home, hl.yield hi hs⟩

private theorem lock_next (hl : ∃ home, Locked home 0 w) (hw : w.isHalted = false) :
    (w.begins = true → w.lock.ensure? w.active = some w.next.lock) ∧
      (w.ends = true → w.lock.owner = w.active ∧ 0 < w.lock.depth ∧
        w.next.lock = w.lock.release) ∧
      (w.begins = false → w.ends = false → w.next.lock = w.lock) := by
  obtain ⟨home, hl⟩ := hl
  unfold isHalted at hw
  unfold begins ends World.next
  cases hs : w.thread.stack with
  | nil => simp
  | cons x below =>
    cases x with
    | base f forced => exact ⟨(by cases ·), (by cases ·), fun _ _ => rfl⟩
    | task t =>
      have hpop := hl.pop hs
      have hm : (w.setStack below).Manned := hpop.manned
      rw [hs] at hw
      refine ⟨fun hb => ?_, fun he => ?_, fun hb he => ?_⟩
      · cases t with
        | destroy r =>
          have hc : (w.lock.ensure? w.active).isSome = true := by simpa [canLock] using hw
          obtain ⟨l, hc⟩ := Option.isSome_iff_exists.mp hc
          have hd : ((w.setStack below).destroy r).lock =
            (w.lock.ensure? w.active).getD w.lock := lock_destroy r
          simp only [runTask, hd, hc, Option.getD_some]
        | _ => cases hb
      · have he' : t.isUnlock = true := he
        simp only [he', if_true] at hpop
        have hd : w.lock.depth = _ + (0 + 1) := hpop.depth
        refine ⟨hpop.pending Nat.one_pos, by omega, ?_⟩
        cases t with
        | reclaim | unlock => rfl
        | _ => cases he
      · exact lock_runTask (w := w.setStack below) hm he fun r hr => by simp [hr] at hb

private theorem ends_of_begins (h : w.begins = true) : w.ends = false := by
  unfold begins at h
  unfold ends
  split at h
  · rename_i hs
    rw [hs]
    rfl
  · cases h

private theorem depthFor_ensure {l m : Lock} {t : ThreadId} (hf : l.owner = 0 ↔ l.depth = 0)
    (h : l.ensure? t = some m) (i : ThreadId) :
    m.depthFor i = l.depthFor i + if t = i then 1 else 0 := by
  simp only [Lock.ensure?, Lock.isHeldBy, beq_iff_eq] at h
  simp only [Lock.depthFor, Lock.isHeldBy, beq_iff_eq]
  split at h
  · rename_i ho
    obtain rfl := Option.some.inj h
    by_cases hi : t = i <;> simp [ho, hi]
  · split at h
    · rename_i ho
      obtain rfl := Option.some.inj h
      have := hf.mp ho
      by_cases hi : t = i <;> simp [ho, hi, this]
    · cases h

private theorem depthFor_release {l : Lock} {t : ThreadId} (ho : l.owner = t)
    (hd : 0 < l.depth) (i : ThreadId) :
    l.release.depthFor i + (if t = i then 1 else 0) = l.depthFor i := by
  simp only [Lock.release, Lock.depthFor, Lock.isHeldBy, beq_iff_eq]
  split
  · by_cases hi : t = i <;> simp_all
  · by_cases hi : t = i
    · simp only [ho, hi, if_true]
      omega
    · simp [ho, hi]

/-- A thread holds the lock once for each destruction that it has begun and not ended. -/
theorem Run.depthFor (h₀ : w₀.Starts) (h : Run w₀ tr w) (i : ThreadId) :
    w.lock.depthFor i + ended i tr = begun i tr := by
  induction h with
  | start =>
    simp only [h₀.bare.1, begun, ended, List.countP_nil, Lock.depthFor]
    split <;> rfl
  | @step tr w h hw ih =>
    obtain ⟨home, hl⟩ := h.locked h₀
    obtain ⟨hb, he, hn⟩ := lock_next ⟨home, hl⟩ hw
    simp only [begun, ended, List.countP_cons, Bool.and_eq_true, beq_iff_eq] at ih ⊢
    by_cases hbt : w.begins = true
    · have het : w.ends = false := ends_of_begins hbt
      have := depthFor_ensure hl.free (hb hbt) i
      simp only [hbt, het, and_true, and_false, Bool.false_eq_true, if_false]
      omega
    · by_cases het : w.ends = true
      · obtain ⟨ho, hd, hr⟩ := he het
        have := depthFor_release ho hd i
        simp only [hbt, het, hr, and_true, and_false, Bool.false_eq_true, if_false]
        omega
      · simp only [hbt, het, and_false, Bool.false_eq_true, if_false,
          hn (by simpa using hbt) (by simpa using het)]
        exact ih
  | yield h _ _ ih => exact ih

private theorem bases_push (hw : w.Seated) (ts : List Task) (i : Nat) :
    Item.bases ((w.push ts).stackAt i) = Item.bases (w.stackAt i) := by
  rw [push_eq_setStack hw, stackAt_setStack hw]
  split
  · subst_vars
    simp [stack_eq_stackAt]
  · rfl

private theorem bases_destroy (hw : w.Seated) (r : Ref) (i : Nat) :
    Item.bases ((w.destroy r).stackAt i) = Item.bases (w.stackAt i) := by
  unfold World.destroy
  simp only
  split
  · exact bases_push (w := { w with lock := _ }) hw _ i
  · rename_i name _ _
    have hq : Quiet { w with lock := (w.lock.ensure? w.active).getD w.lock }
      (World.event "drop" [.text name] { w with lock := (w.lock.ensure? w.active).getD w.lock }) :=
      .event _ _
    rw [bases_push (hq.seated hw), hq.stackAt]
    rfl
  · exact bases_push (w := (World.modifyGreenlet r _ { w with lock := _ })) hw _ i
  · exact bases_push (w := { w with lock := _ }) hw _ i

private theorem bases_next (hw : w.Seated) (h : w.begins = true ∨ w.ends = true) (i : Nat) :
    Item.bases (w.next.stackAt i) = Item.bases (w.stackAt i) := by
  have hpop {t : Task} {below : List (Item Task)} (hs : w.thread.stack = .task t :: below) :
      Item.bases ((w.setStack below).stackAt i) = Item.bases (w.stackAt i) := by
    rw [stackAt_setStack hw]
    split
    · subst_vars
      rw [← stack_eq_stackAt, hs]
      rfl
    · rfl
  unfold begins ends at h
  unfold World.next
  cases hs : w.thread.stack with
  | nil => simp [hs] at h
  | cons x below =>
    cases x with
    | base => simp [hs] at h
    | task t =>
      cases t with
      | destroy r =>
        have hb : (w.setStack below).Seated := (seated_modifyThread _).mpr hw
        exact (bases_destroy hb r i).trans (hpop hs)
      | reclaim | unlock => exact hpop hs
      | _ => simp [hs, Task.isUnlock] at h

/-- A transfer leaves the lock as it is, and the transferring thread holds it exactly when the
thread has a destruction under way. -/
theorem lock_at_transfer (h₀ : w₀.Starts) (h : Run w₀ tr w) (ht : w.transfers) :
    w.next.lock = w.lock ∧
      (w.lock.depthFor w.active = 0 ↔ begun w.active tr = ended w.active tr) := by
  obtain ⟨hw, ht⟩ := ht
  obtain ⟨home, hl⟩ := h.locked h₀
  have hd := h.depthFor h₀ w.active
  refine ⟨(lock_next ⟨home, hl⟩ hw).2.2 ?_ ?_, by omega⟩
  · by_contra hb
    refine ht ?_
    rw [bases_next hl.manned.seated (.inl (by simpa using hb)), ← stack_eq_stackAt]
  · by_contra he
    refine ht ?_
    rw [bases_next hl.manned.seated (.inr (by simpa using he)), ← stack_eq_stackAt]

/-- The first thread drops a greenlet that never ran. What this greenlet captured is the last
handle of another one, which is suspended. -/
def captured : World :=
  Script.start .empty
    [("p", [.canary (.mk "c" [.lock]), .switch "@main" (.built [] []) none none]), ("u", [])]
    [.create "p" "p" [] [] none none, .switch "p" (.built [] []) none none,
      .create "u" "u" [] ["p"] none none, .drop "u"] 500

theorem lock_at_transfer_captured : ∃ tr, Run captured tr (captured.run 50) ∧
    (captured.run 50).transfers ∧ (captured.run 50).next.lock = (captured.run 50).lock ∧
    ((captured.run 50).lock.depthFor (captured.run 50).active = 0 ↔
      begun (captured.run 50).active tr = ended (captured.run 50).active tr) := by
  obtain ⟨tr, h⟩ := (@Run.start captured).run 50
  have ht : (captured.run 50).transfers := by decide +kernel
  exact ⟨tr, h, ht, lock_at_transfer (.script ..) h ht⟩

/-- The suspended stack is unwound inside of the destruction, so under the lock. -/
theorem lock_held_at_transfer : ¬ ∀ (w₀ : World) (tr : List World) (w : World), w₀.Starts →
    Run w₀ tr w → w.transfers → w.lock.depthFor w.active = 0 := by
  intro h
  obtain ⟨tr, hr⟩ := (@Run.start captured).run 50
  have h₁ : (captured.run 50).lock.depthFor (captured.run 50).active = 1 := by decide +kernel
  rw [h captured tr _ (.script ..) hr (by decide +kernel)] at h₁
  cases h₁

end World

end Switchyard
