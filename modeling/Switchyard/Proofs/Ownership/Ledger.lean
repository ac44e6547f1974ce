import Switchyard.Proofs.Ownership.Token
import Switchyard.Proofs.Total
import Switchyard.Proofs.View

/-!
# The ledger of a world

Every token that some slot claims is covered: an object counts at least its references, a fiber its
handles, a hub its owners. `Covered hand w` says so when tokens in `hand` are on their way from one
slot to another. Each update of a world has a rule that says which tokens it takes or gives. The
rules hold for the tokens of some kinds as well as for all.
-/

namespace Switchyard

theorem Value.tokens_of_greenlet? {v : Value} (h : v.greenlet? = none) : v.tokens = [] := by
  cases v with
  | greenlet g => cases h
  | _ => rfl

def Object.supply (o : Object) (r : Ref) : Token → Nat
  | .object q => if q = r then o.count else 0
  | .sole q => if q = r ∧ o.count = 1 then 1 else 0
  | .grave q => if q = r ∧ o.count = 0 then 1 else 0
  | _ => 0

def Fiber.supply (s : Fiber Task) (f : FiberId) : Token → Nat
  | .fiber q => if q = f then s.handles else 0
  | _ => 0

def Hub.supply (s : Hub) (h : HubId) : Token → Nat
  | .hub q => if q = h ∧ s.disposed = false then s.holders else 0
  | .tomb q => if q = h ∧ s.disposed = false ∧ s.holders = 0 then 1 else 0
  | _ => 0

namespace World

variable {K : Token → Prop} {w w' : World} {hand hand' : List Token}

def supply (w : World) : Token → Nat
  | .object r => ((w.object? r).map (·.supply r (.object r))).getD 0
  | .sole r => ((w.object? r).map (·.supply r (.sole r))).getD 0
  | .grave r => ((w.object? r).map (·.supply r (.grave r))).getD 0
  | .fiber f => (w.fibers[f]?.map (·.supply f (.fiber f))).getD 0
  | .hub h => (w.hubs[h]?.map (·.supply h (.hub h))).getD 0
  | .tomb h => (w.hubs[h]?.map (·.supply h (.tomb h))).getD 0
  | .doom _ | .urn _ => 0

theorem supply_object (w : World) (r : Ref) : w.supply (.object r) = w.count r := by
  simp only [supply, count]
  cases w.object? r with
  | none => rfl
  | some o => simp [Object.supply]

def slotTokens (o : Option Object) : List Token := (o.map Object.tokens).getD []

def demand (w : World) (k : Token) : Nat :=
  total (fun t : Thread => t.tokens.count k) w.threads +
    total (fun s : Fiber Task => s.tokens.count k) w.fibers +
    total (fun s : Hub => s.tokens.count k) w.hubs +
    total (fun o => (slotTokens o).count k) w.heap + w.tableTokens.count k

/-- Each claim of a kind in `K`, those of the tokens in `hand` included, is covered. -/
def Covers (K : Token → Prop) (hand : List Token) (w : World) : Prop :=
  ∀ k, K k → w.demand k + hand.count k ≤ w.supply k

def Covered (hand : List Token) (w : World) : Prop := Covers (·.isBacked = true) hand w

private theorem total_core (xs : Array Thread) (k : Token) :
    total (fun t : Thread => t.tokens.count k) xs =
      total (fun c : Core => (Item.tokensOf c.stack ++ c.pending.tokens .object ++
        c.home.tokens .hub).count k)
        (xs.map fun t => Core.mk t.stack t.pending t.home t.parent) := by
  rw [total_map]
  rfl

theorem Quiet.demand (hq : Quiet w w') (k : Token) : w'.demand k = w.demand k := by
  have ht : total (fun t : Thread => t.tokens.count k) w'.threads =
      total (fun t : Thread => t.tokens.count k) w.threads := by
    rw [total_core, total_core, hq.threads]
  simp only [World.demand, ht, hq.fibers, hq.hubs, hq.heap, tableTokens, hq.handles, hq.objects,
    hq.outs, hq.named]

theorem demand_modifyThread (hw : w.Seated) (f : Thread → Thread) (k : Token) :
    (w.modifyThread f).demand k + w.thread.tokens.count k =
      w.demand k + (f w.thread).tokens.count k := by
  have ht := total_modify (fun t : Thread => t.tokens.count k) hw.getElem? f
  simp only [demand, World.modifyThread, tableTokens]
  omega

theorem demand_modifyHub {h : HubId} {s : Hub} (hs : w.hubs[h]? = some s) (f : Hub → Hub)
    (k : Token) :
    (w.modifyHub h f).demand k + s.tokens.count k = w.demand k + (f s).tokens.count k := by
  have ht := total_modify (fun s : Hub => s.tokens.count k) hs f
  simp only [demand, World.modifyHub, tableTokens]
  omega

theorem demand_modifyObject {r : Ref} {o : Object} (ho : w.object? r = some o)
    (f : Object → Object) (k : Token) :
    (w.modifyObject r f).demand k + o.tokens.count k = w.demand k + (f o).tokens.count k := by
  have ht := total_modify (fun o => (slotTokens o).count k) (heap_of_object ho) (Option.map f)
  simp only [demand, World.modifyObject, tableTokens, slotTokens, Option.map_some,
    Option.getD_some] at ht ⊢
  omega

namespace Covers

theorem trade (h : Covers K hand w) (hc : ∀ k, K k → hand'.count k ≤ hand.count k) :
    Covers K hand' w := fun k hK => by
  have := h k hK
  have := hc k hK
  omega

theorem quiet (hq : Quiet w w') (h : Covers K hand w) : Covers K hand w' := fun k hK => by
  have hk := h k hK
  have hd := hq.demand k
  have hs : w'.supply k = w.supply k := by
    cases k <;> simp only [supply, hq.object?, hq.fibers, hq.hubs]
  omega

theorem modifyThread (hw : w.Seated) {f : Thread → Thread} (h : Covers K hand w)
    (hf : ∀ k, K k → (f w.thread).tokens.count k + hand'.count k ≤
      w.thread.tokens.count k + hand.count k) :
    Covers K hand' (w.modifyThread f) := fun k hK => by
  have hk := h k hK
  have hf := hf k hK
  have hs : (w.modifyThread f).supply k = w.supply k := by cases k <;> rfl
  have hd := demand_modifyThread hw f k
  omega

theorem setStack (hw : w.Seated) {s : List (Item Task)} (h : Covers K hand w)
    (hs : ∀ k, K k → (Item.tokensOf s).count k + hand'.count k ≤
      (Item.tokensOf w.thread.stack).count k + hand.count k) :
    Covers K hand' (w.setStack s) := by
  refine h.modifyThread (f := fun t => { t with stack := s }) hw fun k hK => ?_
  have := hs k hK
  simp only [Thread.tokens, List.count_append]
  omega

theorem pop (hw : w.Seated) {t : Task} {below : List (Item Task)}
    (ht : w.thread.stack = .task t :: below) (h : Covers K hand w) :
    Covers K (t.tokens ++ hand) (w.setStack below) := by
  refine h.setStack hw fun k _ => ?_
  simp only [ht, Item.tokensOf_cons, Item.tokens, List.count_append]
  omega

theorem push (hw : w.Seated) {ts : List Task} (h : Covers K hand w)
    (hc : ∀ k, K k → (Task.tokensOf ts).count k + hand'.count k ≤ hand.count k) :
    Covers K hand' (w.push ts) := by
  rw [push_eq_setStack hw]
  refine h.setStack hw fun k hK => ?_
  have := hc k hK
  simp only [Item.tokensOf_append, Item.tokensOf_map_task, List.count_append]
  omega

theorem modifyHub {h : HubId} {f : Hub → Hub} (hc : Covers K hand w)
    (hf : ∀ s, w.hubs[h]? = some s → ∀ k, K k → (f s).tokens.count k + hand'.count k + s.supply h k ≤
      s.tokens.count k + hand.count k + (f s).supply h k)
    (hn : w.hubs[h]? = none → ∀ k, K k → hand'.count k ≤ hand.count k) :
    Covers K hand' (w.modifyHub h f) := by
  cases hs : w.hubs[h]? with
  | none =>
    have he : w.modifyHub h f = w := by
      rw [World.modifyHub, modify_eq_self hs]
    rw [he]
    exact hc.trade (hn hs)
  | some s =>
    intro k hK
    have hk := hc k hK
    have hf := hf s hs k hK
    have hd := demand_modifyHub hs f k
    have hsup : (w.modifyHub h f).supply k + s.supply h k = w.supply k + (f s).supply h k := by
      cases k with
      | hub q | tomb q =>
        simp only [supply, World.modifyHub, Array.getElem?_modify]
        by_cases hq : h = q
        · subst hq
          simp only [if_true, hs, Option.map_some, Option.getD_some]
          omega
        · simp [hq, Hub.supply, Ne.symm hq]
      | _ => rfl
    omega

theorem modifyHub_of_eq {h : HubId} {f : Hub → Hub}
    (hf : ∀ s, (f s).tokens = s.tokens ∧ (f s).holders = s.holders ∧ (f s).disposed = s.disposed)
    (hc : Covers K hand w) : Covers K hand (w.modifyHub h f) := by
  refine hc.modifyHub (fun s _ k _ => ?_) fun _ _ _ => Nat.le_refl _
  have : (f s).supply h k = s.supply h k := by cases k <;> simp [Hub.supply, hf s]
  exact Nat.le_of_eq (by rw [(hf s).1, this])

theorem holdHub {h : HubId} (hd : (w.hub h).disposed = false) (hp : 0 < (w.hub h).holders)
    (hc : Covers K hand w) : Covers K (.hub h :: hand) (w.holdHub h) := by
  refine hc.modifyHub (fun s hs k _ => ?_) fun hn => ?_
  · rw [hub_of_some hs] at hd hp
    have hh : s.holders ≠ 0 := Nat.ne_of_gt hp
    have ht : ({ s with holders := s.holders + 1 } : Hub).tokens = s.tokens := rfl
    rw [ht, List.count_cons]
    cases k with
    | hub q =>
      by_cases hq : q = h
      · simp [Hub.supply, hq, hd]
        omega
      · simp [Hub.supply, hq, Ne.symm hq]
    | tomb q => simp [Hub.supply, hh]
    | _ => simp [Hub.supply]
  · simp [World.hub, hn] at hd

theorem leaveHub {h : HubId} (hK : K (.hub h)) (hc : Covers K (.hub h :: hand) w) :
    (∃ s, w.hubs[h]? = some s ∧ s.disposed = false ∧ 0 < s.holders) ∧
      Covers K (if (w.hub h).holders ≤ 1 then .tomb h :: hand else hand)
        (w.modifyHub h fun s => { s with holders := s.holders - 1 }) := by
  have hz := hc (.hub h) hK
  rw [List.count_cons_self] at hz
  cases hs : w.hubs[h]? with
  | none => simp [supply, hs] at hz
  | some s =>
    simp only [supply, hs, Option.map_some, Option.getD_some, Hub.supply, true_and] at hz
    have hd : s.disposed = false := by
      by_contra hd
      simp [hd] at hz
    have hh : 0 < s.holders := by
      simp [hd] at hz
      omega
    refine ⟨⟨s, rfl, hd, hh⟩, ?_⟩
    rw [hub_of_some hs]
    refine hc.modifyHub (fun s' hs' k _ => ?_) fun hn => ?_
    · obtain rfl : s = s' := by simpa [hs] using hs'
      have ht : ({ s with holders := s.holders - 1 } : Hub).tokens = s.tokens := rfl
      have h₀ : s.holders ≠ 0 := by omega
      rw [ht]
      by_cases h₁ : s.holders ≤ 1
      · simp only [h₁, if_true]
        cases k with
        | hub q =>
          by_cases hq : q = h
          · simp [Hub.supply, hq, hd]
            omega
          · simp [Hub.supply, hq, Ne.symm hq]
        | tomb q =>
          have h₁ : s.holders - 1 = 0 := by omega
          by_cases hq : q = h
          · simp [Hub.supply, hq, hd, h₁, h₀]
            omega
          · simp [Hub.supply, hq, Ne.symm hq]
        | _ => simp [Hub.supply]
      · simp only [h₁, if_false]
        cases k with
        | hub q =>
          by_cases hq : q = h
          · simp [Hub.supply, hq, hd]
            omega
          · simp [Hub.supply, hq, Ne.symm hq]
        | tomb q =>
          have h₁ : s.holders - 1 ≠ 0 := by omega
          simp [Hub.supply, h₀, h₁]
        | _ => simp [Hub.supply]
    · simp [hs] at hn

private theorem supply_modifyObject {r : Ref} {o : Object} (ho : w.object? r = some o)
    (f : Object → Object) (k : Token) :
    (w.modifyObject r f).supply k + o.supply r k = w.supply k + (f o).supply r k := by
  cases k with
  | object q | sole q | grave q =>
    simp only [supply, object?_modifyObject]
    by_cases hq : r = q
    · subst hq
      simp only [if_true, ho, Option.map_some, Option.getD_some]
      omega
    · simp [hq, Object.supply, Ne.symm hq]
  | _ => rfl

theorem modifyValue {r : Ref} {f : Object → Object} (hc : Covers K hand w)
    (hn : ∀ o, (f o).count = o.count)
    (hf : ∀ o, w.object? r = some o → ∀ k, K k → (f o).tokens.count k + hand'.count k ≤
      o.tokens.count k + hand.count k)
    (h₀ : w.object? r = none → ∀ k, K k → hand'.count k ≤ hand.count k) :
    Covers K hand' (w.modifyObject r f) := by
  cases ho : w.object? r with
  | none =>
    rw [modifyObject_none ho]
    exact hc.trade (h₀ ho)
  | some o =>
    intro k hK
    have hk := hc k hK
    have hf := hf o ho k hK
    have hd := demand_modifyObject ho f k
    have hs := supply_modifyObject ho f k
    have : (f o).supply r k = o.supply r k := by cases k <;> simp [Object.supply, hn o]
    omega

theorem modifyGreenlet {r : Ref} {f : Greenlet → Greenlet} (hc : Covers K hand w)
    (hf : ∀ g, w.greenlet? r = some g → ∀ k, K k → (f g).tokens.count k + hand'.count k ≤
      g.tokens.count k + hand.count k)
    (h₀ : w.greenlet? r = none → ∀ k, K k → hand'.count k ≤ hand.count k) :
    Covers K hand' (w.modifyGreenlet r f) := by
  refine hc.modifyValue (fun o => by obtain ⟨n, v⟩ := o; cases v <;> rfl) (fun o ho k hK => ?_)
    fun ho => h₀ (by simp [World.greenlet?, ho])
  obtain ⟨n, v⟩ := o
  cases v with
  | greenlet g => exact hf g (greenlet?_eq_some_iff.mpr ⟨n, ho⟩) k hK
  | _ => exact Nat.add_le_add_left (h₀ (by simp [World.greenlet?, ho, Value.greenlet?]) k hK) _

theorem object?_of_mem {r : Ref} (hK : K (.object r)) (hc : Covers K hand w) (hr : .object r ∈ hand) :
    ∃ o, w.object? r = some o ∧ 0 < o.count := by
  have hk := hc (.object r) hK
  have hp : 0 < hand.count (.object r) := List.count_pos_iff.mpr hr
  rw [supply_object] at hk
  obtain ⟨o, ho⟩ := object?_of_count (w := w) (r := r) (by omega)
  rw [count_of_some ho] at hk
  exact ⟨o, ho, by omega⟩

theorem retain {r : Ref} (hR : K (.object r)) (hc : Covers K hand w)
    (h₁ : 0 < w.demand (.object r) + hand.count (.object r))
    (h₀ : K (.sole r) → w.demand (.sole r) + hand.count (.sole r) = 0) :
    Covers K (.object r :: hand) (w.retain r) := by
  obtain ⟨o, ho⟩ : ∃ o, w.object? r = some o := by
    have hz := hc (.object r) hR
    rw [supply_object] at hz
    exact object?_of_count (by omega)
  intro k hK
  have hk := hc k hK
  have hd := demand_modifyObject ho (fun o => { o with count := o.count + 1 }) k
  have hs := supply_modifyObject ho (fun o => { o with count := o.count + 1 }) k
  have hz := hc (.object r) hR
  rw [supply_object, count_of_some ho] at hz
  have ht : ({ o with count := o.count + 1 } : Object).tokens = o.tokens := rfl
  rw [ht] at hd
  simp only [World.retain]
  have hg : w.supply (.grave r) = 0 := by
    have : o.count ≠ 0 := by omega
    simp [supply, ho, Object.supply, this]
  cases k with
  | object q =>
    by_cases hq : q = r
    · subst hq
      simp only [Object.supply, if_true, List.count_cons_self] at hs ⊢
      omega
    · simp only [Object.supply, hq, if_false] at hs
      rw [List.count_cons_of_ne (by simp [Ne.symm hq])]
      omega
  | sole q =>
    by_cases hq : q = r
    · subst hq
      have := h₀ hK
      rw [List.count_cons_of_ne (by simp)]
      omega
    · simp only [Object.supply, hq, false_and, if_false] at hs
      rw [List.count_cons_of_ne (by simp)]
      omega
  | grave q =>
    by_cases hq : q = r
    · subst hq
      rw [List.count_cons_of_ne (by simp)]
      omega
    · simp only [Object.supply, hq, false_and, if_false] at hs
      rw [List.count_cons_of_ne (by simp)]
      omega
  | _ =>
    simp only [Object.supply] at hs
    rw [List.count_cons_of_ne (by simp)]
    omega

theorem release {r : Ref} {o : Object} (hR : K (.object r)) (hc : Covers K (.object r :: hand) w)
    (ho : w.object? r = some o)
    (h₀ : K (.sole r) → o.count = 1 → w.demand (.sole r) + hand.count (.sole r) = 0) :
    Covers K (if o.count ≤ 1 then .grave r :: hand else hand)
      (w.modifyObject r fun o => { o with count := o.count - 1 }) := by
  intro k hK
  have hk := hc k hK
  have hd := demand_modifyObject ho (fun o => { o with count := o.count - 1 }) k
  have hs := supply_modifyObject ho (fun o => { o with count := o.count - 1 }) k
  have ht : ({ o with count := o.count - 1 } : Object).tokens = o.tokens := rfl
  rw [ht] at hd
  have hz := hc (.object r) hR
  rw [supply_object, count_of_some ho, List.count_cons_self] at hz
  have hg : w.supply (.grave r) = 0 := by
    have : o.count ≠ 0 := by omega
    simp [supply, ho, Object.supply, this]
  by_cases h₁ : o.count ≤ 1
  · have h₁ : o.count = 1 := by omega
    simp only [h₁, Nat.le_refl, if_true]
    cases k with
    | object q =>
      by_cases hq : q = r
      · subst hq
        simp only [Object.supply, if_true, List.count_cons_self] at hs hk
        rw [List.count_cons_of_ne (by simp)]
        omega
      · simp only [Object.supply, hq, if_false] at hs
        rw [List.count_cons_of_ne (by simp [Ne.symm hq])] at hk
        rw [List.count_cons_of_ne (by simp)]
        omega
    | sole q =>
      rw [List.count_cons_of_ne (by simp)] at hk ⊢
      by_cases hq : q = r
      · subst hq
        have := h₀ hK h₁
        omega
      · simp only [Object.supply, hq, false_and, if_false] at hs
        omega
    | grave q =>
      rw [List.count_cons_of_ne (by simp)] at hk
      by_cases hq : q = r
      · subst hq
        rw [List.count_cons_self]
        simp [Object.supply, h₁] at hs
        omega
      · rw [List.count_cons_of_ne (by simp [Ne.symm hq])]
        simp only [Object.supply, hq, false_and, if_false] at hs
        omega
    | _ =>
      rw [List.count_cons_of_ne (by simp)] at hk ⊢
      simp only [Object.supply] at hs
      omega
  · rw [if_neg h₁]
    cases k with
    | object q =>
      by_cases hq : q = r
      · subst hq
        simp only [Object.supply, if_true, List.count_cons_self] at hs hk
        omega
      · simp only [Object.supply, hq, if_false] at hs
        rw [List.count_cons_of_ne (by simp [Ne.symm hq])] at hk
        omega
    | sole q =>
      rw [List.count_cons_of_ne (by simp)] at hk
      by_cases hq : q = r
      · subst hq
        have h₂ : o.count ≠ 1 := by omega
        simp only [Object.supply, h₂, and_false, if_false] at hs
        omega
      · simp only [Object.supply, hq, false_and, if_false] at hs
        omega
    | grave q =>
      rw [List.count_cons_of_ne (by simp)] at hk
      by_cases hq : q = r
      · subst hq
        omega
      · simp only [Object.supply, hq, false_and, if_false] at hs
        omega
    | _ =>
      rw [List.count_cons_of_ne (by simp)] at hk
      simp only [Object.supply] at hs
      omega

theorem revive {r : Ref} {f : Object → Object} (hG : K (.grave r)) (hc : Covers K (.grave r :: hand) w)
    (hn : ∀ o, (f o).count = 1) (hf : ∀ o, w.object? r = some o → (f o).tokens = o.tokens) :
    Covers K (.object r :: .sole r :: hand) (w.modifyObject r f) := by
  have hg := hc (.grave r) hG
  rw [List.count_cons_self] at hg
  obtain ⟨o, ho⟩ : ∃ o, w.object? r = some o := by
    cases ho : w.object? r with
    | none => simp [supply, ho] at hg
    | some o => exact ⟨o, rfl⟩
  have h₀ : o.count = 0 := by
    by_contra h
    simp [supply, ho, Object.supply, h] at hg
  simp only [supply, ho, Option.map_some, Option.getD_some, Object.supply, h₀, and_self,
    if_true] at hg
  intro k hK
  have hk := hc k hK
  have hd := demand_modifyObject ho f k
  have hs := supply_modifyObject ho f k
  rw [hf o ho] at hd
  cases k with
  | object q =>
    rw [List.count_cons_of_ne (by simp)] at hk
    by_cases hq : q = r
    · subst hq
      rw [List.count_cons_self, List.count_cons_of_ne (by simp)]
      simp only [Object.supply, if_true, hn, h₀] at hs
      omega
    · rw [List.count_cons_of_ne (by simp [Ne.symm hq]), List.count_cons_of_ne (by simp)]
      simp only [Object.supply, hq, if_false] at hs
      omega
  | sole q =>
    rw [List.count_cons_of_ne (by simp)] at hk
    by_cases hq : q = r
    · subst hq
      rw [List.count_cons_of_ne (by simp), List.count_cons_self]
      simp [Object.supply, hn, h₀] at hs
      simp [supply, ho, Object.supply, h₀] at hk
      omega
    · rw [List.count_cons_of_ne (by simp), List.count_cons_of_ne (by simp [Ne.symm hq])]
      simp only [Object.supply, hq, false_and, if_false] at hs
      omega
  | grave q =>
    rw [List.count_cons_of_ne (by simp), List.count_cons_of_ne (by simp)]
    by_cases hq : q = r
    · subst hq
      rw [List.count_cons_self] at hk
      simp [Object.supply, hn, h₀] at hs
      omega
    · rw [List.count_cons_of_ne (by simp [Ne.symm hq])] at hk
      simp only [Object.supply, hq, false_and, if_false] at hs
      omega
  | _ =>
    rw [List.count_cons_of_ne (by simp)] at hk
    rw [List.count_cons_of_ne (by simp), List.count_cons_of_ne (by simp)]
    simp only [Object.supply] at hs
    omega

end Covers

namespace Covered

theorem mint (h : Covered hand w) {k : Token} (hk : k.isBacked = false) : Covered (k :: hand) w :=
  fun x hx => by
    rw [List.count_cons_of_ne fun he => by rw [he, hx] at hk; cases hk]
    exact h x hx

theorem trade (h : Covered hand w) (hc : ∀ k, hand'.count k ≤ hand.count k) :
    Covered hand' w :=
  Covers.trade h fun k _ => hc k

theorem quiet (hq : Quiet w w') (h : Covered hand w) : Covered hand w' :=
  Covers.quiet hq h

theorem modifyThread (hw : w.Seated) {f : Thread → Thread} (h : Covered hand w)
    (hf : ∀ k, (f w.thread).tokens.count k + hand'.count k ≤
      w.thread.tokens.count k + hand.count k) :
    Covered hand' (w.modifyThread f) :=
  Covers.modifyThread hw h fun k _ => hf k

theorem setStack (hw : w.Seated) {s : List (Item Task)} (h : Covered hand w)
    (hs : ∀ k, (Item.tokensOf s).count k + hand'.count k ≤
      (Item.tokensOf w.thread.stack).count k + hand.count k) :
    Covered hand' (w.setStack s) :=
  Covers.setStack hw h fun k _ => hs k

theorem pop (hw : w.Seated) {t : Task} {below : List (Item Task)}
    (ht : w.thread.stack = .task t :: below) (h : Covered hand w) :
    Covered (t.tokens ++ hand) (w.setStack below) :=
  Covers.pop hw ht h

theorem push (hw : w.Seated) {ts : List Task} (h : Covered hand w)
    (hc : ∀ k, (Task.tokensOf ts).count k + hand'.count k ≤ hand.count k) :
    Covered hand' (w.push ts) :=
  Covers.push hw h fun k _ => hc k

theorem modifyHub {h : HubId} {f : Hub → Hub} (hc : Covered hand w)
    (hf : ∀ s, w.hubs[h]? = some s → ∀ k, (f s).tokens.count k + hand'.count k + s.supply h k ≤
      s.tokens.count k + hand.count k + (f s).supply h k)
    (hn : w.hubs[h]? = none → ∀ k, hand'.count k ≤ hand.count k) :
    Covered hand' (w.modifyHub h f) :=
  Covers.modifyHub hc (fun s hs k _ => hf s hs k) fun h k _ => hn h k

theorem modifyHub_of_eq {h : HubId} {f : Hub → Hub}
    (hf : ∀ s, (f s).tokens = s.tokens ∧ (f s).holders = s.holders ∧ (f s).disposed = s.disposed)
    (hc : Covered hand w) : Covered hand (w.modifyHub h f) :=
  Covers.modifyHub_of_eq hf hc

theorem leaveHub {h : HubId} (hc : Covered (.hub h :: hand) w) :
    (∃ s, w.hubs[h]? = some s ∧ s.disposed = false ∧ 0 < s.holders) ∧
      Covered (if (w.hub h).holders ≤ 1 then .tomb h :: hand else hand)
        (w.modifyHub h fun s => { s with holders := s.holders - 1 }) :=
  Covers.leaveHub (K := (·.isBacked = true)) rfl hc

theorem modifyGreenlet {r : Ref} {f : Greenlet → Greenlet} (hc : Covered hand w)
    (hf : ∀ g, w.greenlet? r = some g → ∀ k, (f g).tokens.count k + hand'.count k ≤
      g.tokens.count k + hand.count k)
    (h₀ : w.greenlet? r = none → ∀ k, hand'.count k ≤ hand.count k) :
    Covered hand' (w.modifyGreenlet r f) :=
  Covers.modifyGreenlet hc (fun g hg k _ => hf g hg k) fun h k _ => h₀ h k

theorem object?_of_mem (hc : Covered hand w) {r : Ref} (hr : .object r ∈ hand) :
    ∃ o, w.object? r = some o ∧ 0 < o.count :=
  Covers.object?_of_mem (K := (·.isBacked = true)) rfl hc hr

theorem release {r : Ref} {o : Object} (hc : Covered (.object r :: hand) w)
    (ho : w.object? r = some o) (h₀ : o.count = 1 → w.demand (.sole r) + hand.count (.sole r) = 0) :
    Covered (if o.count ≤ 1 then .grave r :: hand else hand)
      (w.modifyObject r fun o => { o with count := o.count - 1 }) :=
  Covers.release (K := (·.isBacked = true)) rfl hc ho fun _ => h₀

theorem revive {r : Ref} {f : Object → Object} (hc : Covered (.grave r :: hand) w)
    (hn : ∀ o, (f o).count = 1) (hf : ∀ o, w.object? r = some o → (f o).tokens = o.tokens) :
    Covered (.object r :: .sole r :: hand) (w.modifyObject r f) :=
  Covers.revive (K := (·.isBacked = true)) rfl hc hn hf

end Covered

end World

end Switchyard
