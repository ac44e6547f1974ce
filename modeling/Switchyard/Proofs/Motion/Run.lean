import Switchyard.Proofs.Motion.Exact
import Switchyard.Proofs.Motion.Stride
import Switchyard.Proofs.Signals.Step

/-!
# Runs with hubs in slots

Where threads have no hubs but those of their slots, each step is a sequence of motions, but for
the yield to another thread and for the slot that ends. A run leaves the world in order.
-/

namespace Switchyard

namespace World

variable {L : Licence} {K : Token → Prop} {w w₀ v : World} {tr : List World} {t : Task}
  {below : List (Item Task)} {spent : List Token} {h : HubId} {r : Ref}

/-- The task that comes next makes no hub outside of the slot of its thread. -/
def InSlots (w : World) : Prop :=
  ∀ t below, w.thread.stack = .task t :: below → t.makesHub = false

instance : DecidablePred InSlots := fun w =>
  let ok : Bool := match w.thread.stack with
    | .task t :: _ => !t.makesHub
    | _ => true
  decidable_of_iff (ok = true) <| by
    unfold InSlots ok
    split
    · rename_i t below hs
      simp [hs]
    · rename_i hn
      exact iff_of_true rfl fun t below hs => absurd hs (hn t below)

theorem OnFacade.inSlots (hf : w.OnFacade) : w.InSlots := by
  intro t below ht
  cases t with
  | steps rest =>
    cases rest with
    | nil => rfl
    | cons st rest =>
      have h := hf st rest below ht
      cases st with
      | newHub => cases h
      | _ => rfl
  | _ => rfl

theorem Rested.sane (hr : w.Rested)
    (hn : ∀ h, (w.hub h).closed = false → ¬ Item.Closes h w.thread.stack) : Sane [] w :=
  { hr with housed := fun h ho => (hr.housed h ho).resolve_right (hn h ho) }

theorem Sane.rested (hs : Sane [] w) : w.Rested :=
  { hs with housed := fun h ho => .inl (hs.housed h ho) }

theorem Rested.yield (hr : w.Rested) {i : ThreadId} (hi : 0 < i) (hs : i ≤ w.threads.size) :
    { w with active := i }.Rested := by
  refine ⟨hr.toKept.yield hi hs, hr.named, hr.registry.same rfl (fun _ => ⟨rfl, rfl⟩) rfl,
    fun h ho => ?_⟩
  have key (j : Nat) (hj : Item.Closes h (w.stackAt j)) :
      { w with active := i }.Housed h ∨ Item.Closes h { w with active := i }.thread.stack := by
    by_cases he : j = i - 1
    · refine .inr ?_
      rw [stack_eq_stackAt]
      exact he ▸ hj
    · exact .inl ⟨j, .inr ⟨he, hj⟩⟩
  rcases hr.housed h ho with ⟨j, hj | ⟨-, hj⟩⟩ | hc
  · exact .inl ⟨j, .inl hj⟩
  · exact key j hj
  · rw [stack_eq_stackAt] at hc
    exact key _ hc

private theorem not_closes {x : Item Task} (ht : w.thread.stack = x :: below)
    (hx : ∀ h, (w.hub h).closed = false → x ≠ .task (.teardown h)) (h : HubId)
    (ho : (w.hub h).closed = false) : ¬ Item.Closes h w.thread.stack := by
  rintro ⟨rest, hc⟩
  rw [ht] at hc
  exact hx h ho (List.cons.inj hc).1

private theorem Sane.leaveHome (hs : Sane [] w) (touched : List SlotName)
    (hh : w.thread.home = .full h) (ht : w.thread.stack = .task .exitSlots :: below) :
    (w.modifyThread fun t => { t with
      stack := ([.teardown h, .leaveHub h, .exitSlots] : List Task).map .task ++ below
      touched, home := .gone }).Rested := by
  generalize hv : (w.modifyThread fun t => { t with
      stack := ([.teardown h, .leaveHub h, .exitSlots] : List Task).map .task ++ below
      touched, home := .gone }) = v
  have hk : Kept [] v := hv ▸ hs.toKept.leaveHome touched hh ht
  have hstk (i : Nat) : v.stackAt i = if i = w.active - 1
      then ([.teardown h, .leaveHub h, .exitSlots] : List Task).map .task ++ below
      else w.stackAt i := by
    rw [← hv]
    exact stackAt_modifyThread hs.seated _ i
  have hcl : Item.Closes h v.thread.stack := by
    refine ⟨.task .exitSlots :: below, ?_⟩
    rw [← hv, thread_modifyThread hs.seated]
    rfl
  refine ⟨hk, ?_, ?_, fun k hk => ?_⟩
  · rw [← hv]
    exact hs.named
  · rw [← hv]
    exact hs.registry.same rfl (fun _ => ⟨rfl, rfl⟩) rfl
  · have hact : v.active = w.active := by rw [← hv]; rfl
    have hk' : (w.hub k).closed = false := by rw [← hv] at hk; exact hk
    obtain ⟨i, hi⟩ := hs.housed k hk'
    by_cases he : i = w.active - 1
    · rw [he, homeAt_active hs.seated, hh] at hi
      rcases hi with hi | ⟨hi, -⟩
      · exact .inr (by cases hi; exact hcl)
      · exact absurd rfl hi
    · refine .inl ⟨i, hi.imp (fun hi => ?_) fun hi => ⟨hact ▸ hi.1, ?_⟩⟩
      · rw [← hv]
        unfold World.homeAt World.modifyThread
        simp only [Array.getElem?_modify, if_neg (Ne.symm he)]
        exact hi
      · rw [hstk, if_neg he]
        exact hi.2

private theorem Rested.closing (hr : w.Rested)
    (ht : w.thread.stack = .task (.teardown h) :: below) (ho : (w.hub h).closed = false) :
    Sane [] (w.closing h) := by
  refine ⟨hr.toKept.close h, hr.named, hr.registry.close h, fun k hk => ?_⟩
  rw [World.closing, hub_modifyHub_of_lt (hub_lt_of_open ho)] at hk
  split at hk
  · cases hk
  · rename_i hne
    refine (hr.housed k hk).resolve_right ?_
    rintro ⟨rest, hc⟩
    rw [ht] at hc
    exact hne (by simpa using (List.cons.inj hc).1)

/-- A step goes on with another thread, or is a sequence of motions, or begins to shut the hub of a
slot that ends. -/
inductive Advance (L : Licence) (w : World) : Prop where
  | yield (i : ThreadId) (hi : 0 < i) (hs : i ≤ w.threads.size) (ht : w.thread.stack = [])
      (he : w.next = { w with active := i })
  /-- A fiber has come to its end. -/
  | land {f : FiberId} {forced : Bool} {below : List (Item Task)}
      (ht : w.thread.stack = .base f forced :: below) (hs : Sane [] w) (m : Motion L [] w [] w.next)
  /-- A task is taken from the stack and run. If it shuts an open hub, the hub is closed by then. -/
  | task {t : Task} {below : List (Item Task)} {v : World}
      (ht : w.thread.stack = .task t :: below)
      (hv : v = w ∨ ∃ h, t = .teardown h ∧ L.hubs h ∧ v = w.closing h) (hs : Sane [] v)
      (m : Motion L [] v t.tokens (v.setStack below))
      (m' : Motion L t.handed (v.setStack below) [] w.next)
  | leaving {h : HubId} {touched : List SlotName} {below : List (Item Task)}
      (ht : w.thread.stack = .task .exitSlots :: below) (hh : w.thread.home = .full h)
      (he : w.next = w.modifyThread fun t => { t with
        stack := ([.teardown h, .leaveHub h, .exitSlots] : List Task).map .task ++ below
        touched, home := .gone })
      (hr : w.next.Rested)

theorem Rested.advance {L : Licence} (hr : w.Rested) (hw : w.Manned) (hh : w.isHalted = false)
    (hm : w.InSlots)
    (hl : ∀ t below, w.thread.stack = .task t :: below → L.Admits (w.setStack below) t)
    (hb : ∀ f forced below, w.thread.stack = .base f forced :: below →
      L.fibers f ∧ ((∀ k, L.Loses k) ∨ (forced = false → (w.fiberD f).tokens = []))) :
    Advance L w := by
  cases hr.toKept.stride hw hh hl hb with
  | yield i hi hs ht he => exact .yield i hi hs ht he
  | land ht m => exact .land ht (hr.sane (not_closes ht (by simp))) m
  | @task t _ ht hn m m' =>
    have hs : Sane [] w := hr.sane (not_closes ht fun h ho he => by
      simp [hn h (Item.task.inj he)] at ho)
    exact .task ht (.inl rfl) hs m m'
  | @shutting h _ ht ho hh m m' =>
    exact .task ht (.inr ⟨h, rfl, hh, rfl⟩) (hr.closing ht ho) m m'
  | leaving ht hh he =>
    have hs : Sane [] w := hr.sane (not_closes ht (by simp))
    exact .leaving ht hh he (he ▸ hs.leaveHome _ hh ht)
  | founding ht _ _ => cases hm _ _ ht

/-- A step goes on with another thread, or is a sequence of motions, or begins to shut the hub of a
slot that ends. -/
theorem Rested.next_cases (hr : w.Rested) (hw : w.Manned) (hh : w.isHalted = false)
    (hm : w.InSlots) :
    (∃ i, 0 < i ∧ i ≤ w.threads.size ∧ w.next = { w with active := i }) ∨
    (∃ v, (v = w ∨ ∃ h, v = w.closing h) ∧ Sane [] v ∧ Motion .full [] v [] w.next) ∨
    ∃ f : Thread → Thread, (∀ t, (f t).home = .gone) ∧ w.next = w.modifyThread f ∧
      w.next.Rested := by
  cases hr.advance hw hh hm (fun _ _ _ => Licence.admits_full _ _)
    fun _ _ _ _ => ⟨trivial, .inl Licence.loses_full⟩ with
  | yield i hi hs _ he => exact .inl ⟨i, hi, hs, he⟩
  | land _ hs m => exact .inr (.inl ⟨w, .inl rfl, hs, m⟩)
  | @task t _ v _ hv hs m m' =>
    refine .inr (.inl ⟨v, hv.imp id fun ⟨h, _, _, he⟩ => ⟨h, he⟩, hs, (m.trading ?_).trans m'⟩)
    exact .of_leaks trivial (fun _ => .inl trivial) fun k _ => t.handed_le k
  | leaving _ _ he hn => exact .inr (.inr ⟨_, fun _ => rfl, he, hn⟩)

theorem Rested.next (hr : w.Rested) (hw : w.Manned) (hh : w.isHalted = false) (hm : w.InSlots) :
    w.next.Rested := by
  rcases hr.next_cases hw hh hm with ⟨i, h₁, h₂, he⟩ | ⟨v, -, hs, m⟩ | ⟨f, -, -, hn⟩
  · rw [he]
    exact hr.yield h₁ h₂
  · exact (m.sane hs).rested
  · exact hn

theorem Starts.rested (hs : w₀.Starts) : w₀.Rested := by
  obtain ⟨-, hh, hb, -⟩ := hs.bare
  have hobj (r : Ref) : w₀.object? r = none := by simp [World.object?, hh]
  have hclosed (h : HubId) : (w₀.hub h).closed = true := by simp [World.hub, hb]
  refine ⟨hs.kept, by cases hs <;> rfl, ?_, fun h ho => by simp [hclosed] at ho⟩
  constructor
  · intro r n g ho
    rw [hobj] at ho
    cases ho
  · intro h _
    simp [World.hub, hb]
  · intro h
    simp [World.hub, hb]
  · intro h r ho
    rw [hclosed] at ho
    cases ho
  · intro r g ho
    rw [hobj] at ho
    cases ho

/-- A run in which no hub is made outside of a slot leaves the world in order. -/
theorem Run.rested (hs : w₀.Starts) (h : Run w₀ tr w) (hm : ∀ v ∈ tr, v.InSlots) : w.Rested := by
  induction h with
  | start => exact hs.rested
  | @step tr v h hw ih =>
    obtain ⟨home, hl⟩ := h.locked hs
    exact (ih fun u hu => hm u (List.mem_cons_of_mem _ hu)).next hl.manned hw
      (hm _ List.mem_cons_self)
  | yield h hi hn ih => exact (ih hm).yield hi hn

/-- The value that the next step destroys. -/
def destroyed? (w : World) : Option Ref :=
  match w.thread.stack with
  | .task (.destroy r) :: _ => some r
  | _ => none

theorem destroyed?_eq_some_iff :
    w.destroyed? = some r ↔ ∃ below, w.thread.stack = .task (.destroy r) :: below := by
  unfold destroyed?
  split
  · rename_i hstk
    simp [hstk]
  · rename_i hn
    exact iff_of_false nofun fun ⟨below, h⟩ => hn r below h

theorem Sane.handed (hs : Sane [] w) (m : Motion L [] w t.tokens v) : Sane t.handed v :=
  (m.widen.trading (.of_leaks trivial (fun _ => .inl trivial) fun k _ => t.handed_le k)).sane hs

/-- A step keeps the accounts of what it does not lose. The claim to destroy a value is met. -/
theorem Exact.next (he : Exact K spent [] w) (hw : w.Seated) (hv : Advance L w)
    (hl : ∀ k, K k → ¬ L.Loses k) (hk : ∀ q p, L.links q → ¬ K (.object p)) :
    Exact K ((w.destroyed?.map Token.doom).toList ++ spent) [] w.next := by
  have idle {w' : World} {hand : List Token} (hn : w.destroyed? = none)
      (h : Exact K spent hand w') :
      Exact K ((w.destroyed?.map Token.doom).toList ++ spent) hand w' := by
    simpa [hn] using h
  cases hv with
  | yield i hi hs ht hn =>
    refine idle (by simp [destroyed?, ht]) ?_
    rw [hn]
    exact ⟨he.even, he.urns⟩
  | land ht hs m => exact idle (by simp [destroyed?, ht]) (m.exact hl hk hs he)
  | leaving ht hh hn =>
    refine idle (by simp [destroyed?, ht]) ?_
    rw [hn]
    refine he.modifyThread hw (.of_kept (fun q => ?_) (fun q => ?_) (fun q => ?_) fun q => ?_)
    all_goals simp [Thread.tokens, ht, hh, Item.tokens, Task.tokens, Slot.tokens, Slot.get?]
  | @task t below v ht hv hs m m' =>
    have hv' : Exact K spent [] v := by
      rcases hv with rfl | ⟨h, -, -, rfl⟩
      · exact he
      · exact he.modifyHub_of_eq fun s => by simp [Hub.tokens]
    have h₁ := m.exact hl hk hs hv'
    have h₂ : Exact K ((w.destroyed?.map Token.doom).toList ++ spent) t.handed
        (v.setStack below) := by
      cases t with
      | destroy r =>
        have hd : w.destroyed? = some r := destroyed?_eq_some_iff.mpr ⟨below, ht⟩
        rw [hd]
        exact (h₁.trade (.of_eq fun k => by
          simp [Task.handed, Task.tokens, List.count_cons]; omega)).spend
      | _ => exact idle (by simp [destroyed?, ht]) h₁
    exact m'.exact hl hk (hs.handed m) h₂

private theorem exact_of_bare (ht : w.threads = #[{}]) (hh : w.heap = #[]) (hb : w.hubs = #[])
    (hf : w.fibers = #[]) (hl : w.lost = []) (htab : w.tableTokens = []) : Exact K [] [] w := by
  have hd := demand_of_bare ht hh hb hf htab
  refine ⟨fun k _ _ => ?_, fun r hr => ?_⟩
  · have hs : w.stock k = 0 := by
      cases k with
      | object r => simp [stock, World.count, World.object?, hh]
      | doom r => simp [stock, Gone, hh]
      | grave r => simp [stock, World.object?, hh]
      | _ => rfl
    simp [owed, hd, hl, hs]
  · simp [hd] at hr

theorem Starts.exact (hs : w₀.Starts) : Exact K [] [] w₀ := by
  cases hs with
  | script env bodies main fuel =>
    have h : Exact K [] [] { World.fresh env with bodies, fuel } :=
      exact_of_bare rfl rfl rfl rfl rfl rfl
    exact h.push ⟨Nat.one_pos, Nat.le_refl 1⟩ (.of_eq fun k => rfl)
  | rally env =>
    have h : Exact K [] [] (World.fresh env) := exact_of_bare rfl rfl rfl rfl rfl rfl
    exact h.push ⟨Nat.one_pos, Nat.le_refl 1⟩ (.of_eq fun k => rfl)

end World

end Switchyard
