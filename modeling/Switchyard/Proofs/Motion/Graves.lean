import Switchyard.Proofs.Motion.Run

/-!
# Storage that is to be freed

An object that has lost its last reference keeps its storage until its value is destroyed. To free
it is left to one stack. A panic that leaves the destruction of the value takes that task off the
stack, and then nobody is left to free the storage.
-/

namespace Switchyard

open World

/-- The item is the destruction of the value of `r`, or frees its storage after that. -/
def Item.buries (r : Ref) : Item Task → Bool
  | .task (.destroy q) | .task (.reclaim q) => q == r
  | _ => false

private theorem Task.grave_mem_tokens {t : Task} {r : Ref} :
    .grave r ∈ t.tokens ↔ Item.buries r (.task t) = true := by
  cases t with
  | answer outcome => cases outcome <;> simp [tokens, Item.buries]
  | destroy q | reclaim q =>
    simp only [tokens, Item.buries, List.mem_cons, List.not_mem_nil, beq_iff_eq]
    simp [@eq_comm _ r]
  | _ => simp [tokens, Item.buries]

theorem Item.grave_mem_tokensOf {s : List (Item Task)} {r : Ref} :
    .grave r ∈ Item.tokensOf s ↔ s.any (Item.buries r) = true := by
  rw [Item.tokensOf, List.mem_flatMap, List.any_eq_true]
  refine exists_congr fun x => and_congr_right fun _ => ?_
  cases x with
  | task t => exact Task.grave_mem_tokens
  | base => simp [Item.tokens, Item.buries]

/-- The stack of a fiber that is not on that of a thread. -/
def Fiber.saved (s : Fiber Task) : List (Item Task) :=
  match s.phase with
  | .fresh entry _ => entry.map .task
  | .parked stack => stack
  | _ => []

theorem Fiber.tokensOf_saved (s : Fiber Task) : Item.tokensOf s.saved = s.tokens := by
  cases hp : s.phase <;> simp [saved, tokens, Phase.tokens, hp]

namespace World

variable {K : Token → Prop} {L : Licence} {w w₀ : World} {tr : List World} {r : Ref} {c : Context}
  {t : Task} {below : List (Item Task)} {spent hand : List Token}

/-- A stack, of a thread or saved or given up, is to destroy the value of `r` or to free its
storage. -/
def buries (w : World) (r : Ref) : Bool :=
  w.threads.any (fun t => t.stack.any (Item.buries r)) ||
    w.fibers.any (fun s => s.saved.any (Item.buries r)) ||
    w.lost.any (fun s => s.any (Item.buries r))

private theorem count_slotTokens (o : Option Object) : (slotTokens o).count (.grave r) = 0 := by
  rw [List.count_eq_zero]
  cases o with
  | none => simp [slotTokens]
  | some o => exact o.notMem_tokens (by simp) (by simp)

private theorem count_hubTokens (s : Hub) : s.tokens.count (.grave r) = 0 := by
  have hq : ∀ q, .grave r ∉ Token.queued q := by simp [Token.queued]
  rw [List.count_eq_zero, Hub.tokens]
  split <;> simp [hq]

theorem buries_iff : w.buries r = true ↔ 0 < w.owed (.grave r) := by
  have hthreads : 0 < total (fun t : Thread => t.tokens.count (.grave r)) w.threads ↔
      w.threads.any (fun t => t.stack.any (Item.buries r)) = true :=
    total_pos_iff_any _ fun t => by
      rw [← Item.grave_mem_tokensOf, List.count_pos_iff, Thread.tokens]
      simp [Slot.tokens]
  have hfibers : 0 < total (fun s : Fiber Task => s.tokens.count (.grave r)) w.fibers ↔
      w.fibers.any (fun s => s.saved.any (Item.buries r)) = true :=
    total_pos_iff_any _ fun s => by
      rw [← Item.grave_mem_tokensOf, Fiber.tokensOf_saved, List.count_pos_iff]
  have hlost : 0 < (w.lost.flatMap Item.tokensOf).count (.grave r) ↔
      w.lost.any (fun s => s.any (Item.buries r)) = true := by
    rw [List.count_pos_iff, List.mem_flatMap, List.any_eq_true]
    exact exists_congr fun s => and_congr_right fun _ => Item.grave_mem_tokensOf
  have hhubs := total_eq_zero_of_forall _ (count_hubTokens (r := r)) w.hubs
  have hheap := total_eq_zero_of_forall _ (count_slotTokens (r := r)) w.heap
  have htable := List.count_eq_zero_of_not_mem (notMem_tableTokens (k := .grave r) (by simp) (by simp) w)
  rw [buries, Bool.or_eq_true, Bool.or_eq_true, ← hthreads, ← hfibers, ← hlost, owed, demand]
  omega

/-- The next step passes a panic by the task that would free the storage of the object: nobody will. -/
def stranded? (w : World) : Option Ref :=
  match w.thread.stack with
  | .task (.fail _) :: .task (.reclaim r) :: _ => some r
  | _ => none

theorem stranded?_eq_some_iff : w.stranded? = some r ↔
    ∃ p below, w.thread.stack = .task (.fail p) :: .task (.reclaim r) :: below := by
  unfold stranded?
  split
  · rename_i hstk
    simp [hstk]
  · rename_i hn
    exact iff_of_false nofun fun ⟨p, below, h⟩ => hn p r below h

/-- The objects whose storage steps from the worlds of `tr` have left behind. -/
def leaked (tr : List World) : List Ref := tr.filterMap stranded?

/-- All is allowed but to leave storage behind. -/
def burying : Licence := { Licence.full with sheds := fun _ => False }

private theorem fiber_of_base {home : FiberId → ThreadId} {f : FiberId} (hl : Locked home 0 w)
    (hf : .base f false ∈ w.thread.stack) : f < w.fibers.size ∧ (w.fiberD f).tokens = [] := by
  have hpos : 0 < w.baseCount f := by
    refine Nat.lt_of_lt_of_le ?_ (le_total _ hl.manned.seated.getElem?)
    exact List.count_pos_iff.mpr (List.mem_filterMap.mpr ⟨_, hf, rfl⟩)
  have hact := hl.running f hpos
  unfold Fiber.isActive at hact
  split at hact
  · rename_i hp
    refine ⟨?_, by rw [Fiber.tokens, hp]; rfl⟩
    by_contra hn
    rw [fiberD, Control.fiberD] at hp
    simp [World.control, Array.getElem?_eq_none (Nat.le_of_not_lt hn)] at hp
  · cases hact

private theorem Stands.admits_burying {home : FiberId → ThreadId} (hc : w.Stands c)
    (hl : Locked home 0 w) (hstk : w.thread.stack = .task t :: below) (hn : w.stranded? = none) :
    burying.Admits (w.setStack below) t where
  frames _ := .inl trivial
  clears _ := trivial
  links _ _ := trivial
  hubs _ _ := trivial
  greenlets _ _ := trivial
  fibers _ _ := trivial
  parts _ _ := ⟨trivial, .inl trivial, fun _ _ _ => ⟨trivial, trivial, fun _ _ => trivial⟩⟩
  heard _ := .inl trivial
  strands r hr := by
    obtain ⟨ht, rest, hb⟩ := hr
    rw [stack_setStack hc.seated] at hb
    subst hb
    obtain ⟨c₁, hb, hi⟩ := Context.of_cons (hstk ▸ hc.context)
    obtain ⟨c₂, -, hr⟩ := Context.of_cons hb
    obtain rfl : .floor = c₁ := Option.some.inj hr
    cases t with
    | fail p => exact absurd (stranded?_eq_some_iff.mpr ⟨p, rest, hstk⟩) (by simp [hn])
    | answer | leave | hand | result => cases hi
    | _ => cases ht
  mounted := .inr fun above f rest hsplit => by
    have hs : (w.setStack below).thread.stack = above ++ .base f false :: rest :=
      (Control.split_eq hsplit).1
    rw [stack_setStack hc.seated] at hs
    have hf : .base f false ∈ w.thread.stack := by simp [hstk, hs]
    have hm := fiber_of_base hl hf
    exact hm
  inner _ := ⟨trivial, fun _ => trivial, fun _ => trivial⟩

private theorem Exact.pop (he : Exact K spent hand w) (hw : w.Seated)
    (hstk : w.thread.stack = .task t :: below) : Exact K spent (t.tokens ++ hand) (w.setStack below) :=
  he.modifyThread hw (.of_eq fun k => by
    simp [Thread.tokens, hstk, Item.tokens]
    omega)

/-- A panic leaves the storage behind, and goes on. -/
private theorem Exact.strand {p : Panic} (he : Exact K spent [] w) (hw : w.Seated)
    (hstk : w.thread.stack = .task (.fail p) :: .task (.reclaim r) :: below) :
    Exact K (.grave r :: spent) [] w.next := by
  let v := w.setStack (.task (.reclaim r) :: below)
  have hv : v.Seated := (seated_modifyThread _).mpr hw
  have hvs : v.thread.stack = .task (.reclaim r) :: below := stack_setStack hw _
  have hn : w.next = (v.setStack below).push [.unlock, .fail p] := by
    unfold World.next
    rw [hstk]
    change v.fault p = _
    unfold World.fault
    rw [hvs]
    rfl
  have h₁ := (he.pop hw hstk).pop hv hvs
  have h₂ : Exact K spent [.grave r] (v.setStack below) :=
    h₁.trade ⟨fun k hk _ => by cases k <;> simp_all [Task.tokens, Token.isKept, List.count_cons],
      fun q => by simp⟩
  rw [hn]
  exact h₂.spend.push ((seated_modifyThread _).mpr hv) (.of_eq fun k => rfl)

/-- Storage to be freed is accounted for along a run. -/
theorem Run.interred (hs : w₀.Starts) (h : Run w₀ tr w) (hm : ∀ v ∈ tr, v.InSlots) :
    Exact (fun k => ∃ r, k = .grave r) ((leaked tr).map .grave) [] w := by
  induction h with
  | start => exact hs.exact
  | @step tr v h hw ih =>
    have hm' : ∀ u ∈ tr, u.InSlots := fun u hu => hm u (List.mem_cons_of_mem _ hu)
    have he := ih hm'
    obtain ⟨c, hc⟩ := h.stands hs
    obtain ⟨home, hl⟩ := h.locked hs
    cases hn : v.stranded? with
    | some r =>
      obtain ⟨p, below, hstk⟩ := stranded?_eq_some_iff.mp hn
      rw [leaked, List.filterMap_cons_some hn]
      exact he.strand hc.seated hstk
    | none =>
      rw [leaked, List.filterMap_cons_none hn]
      have hv : Advance burying v := (h.rested hs hm').advance hl.manned hw (hm _ List.mem_cons_self)
        (fun t below hstk => hc.admits_burying hl hstk hn) fun f forced below hstk =>
          ⟨trivial, .inr fun hf => (fiber_of_base hl (by simp [hstk, hf])).2⟩
      refine (he.next hc.seated hv (fun k hk hn => ?_) fun _ q _ hk => ?_).respend fun k hk => ?_
      · obtain ⟨r, rfl⟩ := hk
        exact hn
      · obtain ⟨r, hr⟩ := hk
        cases hr
      · obtain ⟨r, rfl⟩ := hk
        rw [List.count_append]
        cases v.destroyed? <;> simp [leaked]
  | yield h hi hn ih => exact ⟨(ih hm).even, (ih hm).urns⟩

/-- Of each object that is there but that nothing refers to, one stack is to free the storage, or a
panic has left it behind once. -/
theorem Run.count_leaked (hs : w₀.Starts) (h : Run w₀ tr w) (hm : ∀ v ∈ tr, v.InSlots) (r : Ref) :
    w.owed (.grave r) + (leaked tr).count r = w.stock (.grave r) := by
  have he := (h.interred hs hm).even (.grave r) rfl ⟨r, rfl⟩
  have hc : ((leaked tr).map Token.grave).count (.grave r) = (leaked tr).count r := by
    rw [List.count, List.count, List.countP_map]
    exact List.countP_congr fun q _ => by simp
  rwa [List.count_nil, Nat.add_zero, hc] at he

theorem stock_grave_pos_iff : 0 < w.stock (.grave r) ↔ ∃ v, w.object? r = some ⟨0, v⟩ := by
  cases ho : w.object? r with
  | none => simp [stock, ho]
  | some o =>
    obtain ⟨n, v⟩ := o
    by_cases hn : n = 0 <;> simp [stock, ho, Object.stock, hn]

/-- What is there though nothing refers to it is to be freed by some stack, or was left behind. -/
theorem Run.unreferred_iff (hs : w₀.Starts) (h : Run w₀ tr w) (hm : ∀ v ∈ tr, v.InSlots) :
    (∃ v, w.object? r = some ⟨0, v⟩) ↔ w.buries r = true ∨ r ∈ leaked tr := by
  rw [← stock_grave_pos_iff, ← h.count_leaked hs hm, buries_iff, ← List.count_pos_iff]
  omega

end World

end Switchyard
