import Switchyard.Proofs.Motion.Sane

/-!
# Exact counts

Where nothing is lost, an object counts the slots that refer to it, no more and no less. When its
last reference goes, one claim to destroy its value comes instead, and one to free its storage, and
those claims are not lost either. Each kind of claim is accounted for apart from the others.
-/

namespace Switchyard

/-- What costs `a` is paid for with `b`, to the last token of a kind in `K`. -/
structure Settles (K : Token → Prop) (a b : Token → Nat) : Prop where
  exact : ∀ k : Token, k.isKept = true → K k → a k = b k
  urn : ∀ r : Ref, a (.urn r) ≤ b (.urn r)

namespace Settles

variable {L : Licence} {K : Token → Prop} {a b : Token → Nat}

theorem of_eq (h : ∀ k, a k = b k) : Settles K a b :=
  ⟨fun k _ _ => h k, fun _ => Nat.le_of_eq (h _)⟩

theorem of_pays (h : L.Pays a b) (hl : ∀ k, K k → ¬ L.Loses k) : Settles K a b :=
  ⟨fun k hk hK => h.eq hk (hl k hK), fun _ => h.le rfl⟩

theorem of_kept (object : ∀ r, a (.object r) = b (.object r))
    (doom : ∀ r, a (.doom r) = b (.doom r)) (grave : ∀ r, a (.grave r) = b (.grave r))
    (urn : ∀ r, a (.urn r) ≤ b (.urn r)) : Settles K a b where
  exact k hk _ := by
    cases k with
    | object r => exact object r
    | doom r => exact doom r
    | grave r => exact grave r
    | _ => cases hk
  urn := urn

end Settles

/-- What an object at `r` has for slots to own: its references, or its value to destroy once and its
storage to free. -/
def Object.stock (o : Object) (r : Ref) : Token → Nat
  | .object q => if q = r then o.count else 0
  | .doom q | .grave q => if q = r ∧ o.count = 0 then 1 else 0
  | _ => 0

namespace World

variable {K : Token → Prop} {w w' : World} {spent hand hand' : List Token} {r : Ref} {h : HubId}

/-- How often slots own `k`. What is on a stack that was given up is still owned by it. -/
def owed (w : World) (k : Token) : Nat := w.demand k + (w.lost.flatMap Item.tokensOf).count k

/-- The number of slots that own a reference to `r`: locals and values on their way on the stacks of
threads and fibers, slots for pending failures, tables, fields of greenlets, queues of hubs. -/
def referrers (w : World) (r : Ref) : Nat := w.owed (.object r)

/-- There was an object at `r`, and it has lost its last reference. -/
def Gone (w : World) (r : Ref) : Prop := r < w.heap.size ∧ w.count r = 0

instance : Decidable (w.Gone r) := inferInstanceAs (Decidable (_ ∧ _))

/-- What there is for slots to own. What has lost its last reference has its value to destroy, once,
and its storage to free as long as that is there. -/
def stock (w : World) : Token → Nat
  | .object r => w.count r
  | .doom r => if w.Gone r then 1 else 0
  | .grave r => ((w.object? r).map (·.stock r (.grave r))).getD 0
  | _ => 0

/-- What is at `r` has no references, and owns nothing. -/
def Hollow (w : World) (r : Ref) : Prop :=
  r < w.heap.size ∧ ∀ o, w.object? r = some o → o.count = 0 ∧ o.tokens = []

/-- What is of a kind in `K` is accounted for: the tokens in slots, those in `hand`, and those that
are `spent` for good. An object whose storage is to be freed is empty. -/
structure Exact (K : Token → Prop) (spent hand : List Token) (w : World) : Prop where
  even : ∀ k : Token, k.isKept = true → K k →
    w.owed k + hand.count k + spent.count k = w.stock k
  urns : ∀ r, 0 < w.demand (.urn r) + hand.count (.urn r) → w.Hollow r

theorem Gone.congr (hz : w'.heap.size = w.heap.size) (hc : w'.count r = w.count r) :
    w'.Gone r ↔ w.Gone r := by rw [Gone, Gone, hz, hc]

theorem Gone.of_alloc {v : Value} (h : (w.alloc v).2.Gone r) : w.Gone r := by
  obtain ⟨hlt, h₀⟩ := h
  rw [count_alloc] at h₀
  split at h₀
  · cases h₀
  · rename_i hne
    simp only [World.alloc, Array.size_push] at hlt
    exact ⟨Nat.lt_of_le_of_ne (Nat.le_of_lt_succ hlt) hne, h₀⟩

theorem Gone.of_modifyObject {q : Ref} {f : Object → Object} (h : (w.modifyObject r f).Gone q)
    (hf : ∀ o, w.object? r = some o → (f o).count = 0 → o.count = 0) : w.Gone q := by
  obtain ⟨hlt, h₀⟩ := h
  refine ⟨by simpa [World.modifyObject] using hlt, ?_⟩
  rw [count_modifyObject] at h₀
  split at h₀
  · rename_i hq
    subst hq
    cases ho : w.object? r with
    | none => simp [World.count, ho]
    | some o =>
      rw [ho, Option.map_some, Option.getD_some] at h₀
      rw [count_of_some ho, hf o ho h₀]
  · exact h₀

theorem Gone.of_modifyGreenlet {q : Ref} {f : Greenlet → Greenlet}
    (h : (w.modifyGreenlet r f).Gone q) : w.Gone q :=
  (Gone.congr (by simp [World.modifyGreenlet, World.modifyObject])
    (count_modifyGreenlet r q f)).mp h

theorem Gone.of_retain {q : Ref} (h : (w.retain r).Gone q) : w.Gone q :=
  h.of_modifyObject fun _ _ h => absurd h (Nat.succ_ne_zero _)

theorem stock_congr (hh : w'.heap = w.heap) (k : Token) : w'.stock k = w.stock k := by
  have hc (r : Ref) : w'.count r = w.count r := by simp only [count, object?, hh]
  cases k with
  | object r => exact hc r
  | doom r => exact if_congr (Gone.congr (by rw [hh]) (hc r)) rfl rfl
  | grave r => simp only [stock, object?, hh]
  | _ => rfl

theorem Hollow.congr (hh : w'.heap = w.heap) (hr : w.Hollow r) : w'.Hollow r := by
  simp only [Hollow, object?, hh] at hr ⊢
  exact hr

theorem stock_modifyObject {o : Object} (ho : w.object? r = some o) (f : Object → Object)
    (k : Token) : (w.modifyObject r f).stock k + o.stock r k = w.stock k + (f o).stock r k := by
  have hsize : (w.modifyObject r f).heap.size = w.heap.size := by simp [World.modifyObject]
  have hlt := lt_size_of_object? ho
  cases k with
  | object q =>
    simp only [stock, count_modifyObject]
    by_cases hq : q = r
    · subst hq
      simp [Object.stock, ho, World.count]
      omega
    · simp [Object.stock, hq, Ne.symm hq]
  | doom q =>
    by_cases hq : q = r
    · subst hq
      have h₁ : (w.modifyObject q f).Gone q ↔ (f o).count = 0 := by
        simp [Gone, count_modifyObject, hsize, hlt, ho]
      have h₂ : w.Gone q ↔ o.count = 0 := by simp [Gone, count_of_some ho, hlt]
      simp [stock, Object.stock, h₁, h₂]
      omega
    · have h₁ : (w.modifyObject r f).Gone q ↔ w.Gone q :=
        Gone.congr hsize (by rw [count_modifyObject, if_neg (Ne.symm hq)])
      simp [stock, Object.stock, hq, h₁]
  | grave q =>
    simp only [stock, object?_modifyObject]
    by_cases hq : q = r
    · subst hq
      simp [ho, Nat.add_comm]
    · simp [Object.stock, hq, Ne.symm hq]
  | _ => rfl

namespace Exact

theorem trade (he : Exact K spent hand w) (hp : Settles K hand'.count hand.count) :
    Exact K spent hand' w where
  even k hk hK := by
    have := he.even k hk hK
    have := hp.exact k hk hK
    omega
  urns r hr := he.urns r (Nat.lt_of_lt_of_le hr (Nat.add_le_add_left (hp.urn r) _))

theorem spend {x : Token} (he : Exact K spent (x :: hand) w) : Exact K (x :: spent) hand w where
  even k hk hK := by
    have := he.even k hk hK
    simp only [List.count_cons] at this ⊢
    omega
  urns q hq := he.urns q (Nat.lt_of_lt_of_le hq
    (Nat.add_le_add_left (List.count_le_count_cons ..) _))

theorem respend {spent' : List Token} (he : Exact K spent hand w)
    (h : ∀ k, K k → spent'.count k = spent.count k) : Exact K spent' hand w where
  even k hk hK := by
    rw [h k hK]
    exact he.even k hk hK
  urns := he.urns

theorem settle (he : Exact K spent hand w) {a b : Token → Nat} (hh : w'.heap = w.heap)
    (hl : w'.lost = w.lost) (hd : ∀ k, w'.demand k + a k = w.demand k + b k)
    (hp : Settles K (fun k => b k + hand'.count k) fun k => a k + hand.count k) :
    Exact K spent hand' w' where
  even k hk hK := by
    have h₁ := he.even k hk hK
    have h₂ := hd k
    have h₃ := hp.exact k hk hK
    have h₄ := stock_congr hh k
    simp only [owed, hl] at h₁ h₃ ⊢
    omega
  urns r hr := by
    have h₁ := hd (.urn r)
    have h₂ := hp.urn r
    exact (he.urns r (by omega)).congr hh

theorem quiet (he : Exact K spent hand w) (hq : Quiet w w') : Exact K spent hand w' :=
  he.settle (a := fun _ => 0) (b := fun _ => 0) hq.heap hq.lost (fun k => by rw [hq.demand])
    (.of_eq fun _ => rfl)

theorem modifyThread (he : Exact K spent hand w) (hw : w.Seated) {f : Thread → Thread}
    (hp : Settles K (fun k => (f w.thread).tokens.count k + hand'.count k) fun k =>
      w.thread.tokens.count k + hand.count k) : Exact K spent hand' (w.modifyThread f) :=
  he.settle rfl rfl (demand_modifyThread hw f) hp

theorem push (he : Exact K spent hand w) (hw : w.Seated) {ts : List Task}
    (hp : Settles K (fun k => (Task.tokensOf ts).count k + hand'.count k) hand.count) :
    Exact K spent hand' (w.push ts) := by
  refine he.modifyThread hw ⟨fun k hk hK => ?_, fun r => ?_⟩
  · have := hp.exact k hk hK
    simp only [Thread.tokens, Item.tokensOf_append, Item.tokensOf_map_task,
      List.count_append] at this ⊢
    omega
  · have := hp.urn r
    simp only [Thread.tokens, Item.tokensOf_append, Item.tokensOf_map_task,
      List.count_append] at this ⊢
    omega

theorem setControl (he : Exact K spent hand w) (hw : w.Seated) {c : Control Task}
    (hx : ∀ k : Token, k.isKept = true → K k →
      c.owed k + hand'.count k = w.control.owed k + hand.count k)
    (hu : ∀ r, c.claims (.urn r) + hand'.count (.urn r) ≤
      w.control.claims (.urn r) + hand.count (.urn r)) : Exact K spent hand' (w.setControl c) where
  even k hk hK := by
    have h₁ := he.even k hk hK
    have h₂ := hx k hk hK
    have h₃ := demand_setControl hw c k
    have h₄ : (w.setControl c).stock k = w.stock k := stock_congr rfl k
    change w.demand k + (w.control.lost.flatMap Item.tokensOf).count k + _ + _ = _ at h₁
    change _ + (c.lost.flatMap Item.tokensOf).count k + _ + _ = _
    simp only [Control.owed] at h₂
    omega
  urns r hr := by
    have h₁ := demand_setControl hw c (.urn r)
    have h₂ := hu r
    have h₃ := he.urns r (by omega)
    exact h₃.congr rfl

theorem modifyHub (he : Exact K spent hand w) {f : Hub → Hub}
    (hp : h < w.hubs.size → Settles K (fun k => (f (w.hub h)).tokens.count k + hand'.count k) fun k =>
      (w.hub h).tokens.count k + hand.count k)
    (h₀ : ¬ h < w.hubs.size → Settles K hand'.count hand.count) :
    Exact K spent hand' (w.modifyHub h f) := by
  cases hs : w.hubs[h]? with
  | none =>
    have hn : ¬ h < w.hubs.size := by simpa using hs
    have heq : w.modifyHub h f = w := by rw [World.modifyHub, modify_eq_self hs]
    rw [heq]
    exact he.trade (h₀ hn)
  | some s =>
    have hp := hp (Array.getElem?_eq_some_iff.mp hs).1
    rw [hub_of_some hs] at hp
    exact he.settle rfl rfl (demand_modifyHub hs f) hp

theorem modifyHub_of_eq (he : Exact K spent hand w) {f : Hub → Hub}
    (hf : ∀ s, (f s).tokens = s.tokens) : Exact K spent hand (w.modifyHub h f) :=
  he.modifyHub (fun _ => .of_eq fun k => by rw [hf]) fun _ => .of_eq fun _ => rfl

theorem modifyObject (he : Exact K spent hand w) {o : Object} (ho : w.object? r = some o)
    {f : Object → Object}
    (hp : Settles K (fun k => (f o).tokens.count k + hand'.count k + o.stock r k) fun k =>
      o.tokens.count k + hand.count k + (f o).stock r k)
    (hh : o.count = 0 → o.tokens = [] → (f o).count = 0 ∧ (f o).tokens = []) :
    Exact K spent hand' (w.modifyObject r f) where
  even k hk hK := by
    have h₁ := he.even k hk hK
    have h₂ := demand_modifyObject ho f k
    have h₃ := stock_modifyObject ho f k
    have h₄ := hp.exact k hk hK
    have hl : (w.modifyObject r f).lost = w.lost := rfl
    simp only [owed, hl] at h₁ h₄ ⊢
    omega
  urns q hq := by
    have h₂ := demand_modifyObject ho f (.urn q)
    have h₄ := hp.urn q
    simp only [Object.stock, Nat.add_zero] at h₄
    have hw := he.urns q (by omega)
    refine ⟨by simpa [World.modifyObject] using hw.1, fun o' ho' => ?_⟩
    rw [object?_modifyObject] at ho'
    split at ho'
    · subst_vars
      rw [ho] at ho'
      obtain rfl := Option.some.inj ho'
      exact hh (hw.2 o ho).1 (hw.2 o ho).2
    · exact hw.2 o' ho'

theorem modifyGreenlet (he : Exact K spent hand w) {f : Greenlet → Greenlet}
    (hp : ∀ g, w.greenlet? r = some g →
      Settles K (fun k => (f g).tokens.count k + hand'.count k) fun k =>
        g.tokens.count k + hand.count k)
    (h₀ : w.greenlet? r = none → Settles K hand'.count hand.count)
    (hh : w.count r = 0 → ∀ g : Greenlet, g.tokens = [] → (f g).tokens = []) :
    Exact K spent hand' (w.modifyGreenlet r f) := by
  cases ho : w.object? r with
  | none =>
    have hn : w.greenlet? r = none := by simp [World.greenlet?, ho]
    have heq : w.modifyGreenlet r f = w := modifyObject_none ho _
    rw [heq]
    exact he.trade (h₀ hn)
  | some o =>
    obtain ⟨n, v⟩ := o
    cases hv : v.greenlet? with
    | none =>
      have hn : w.greenlet? r = none := by simp [World.greenlet?, ho, hv]
      have heq : w.modifyGreenlet r f = w.modifyObject r id := modifyObject_congr fun o' ho' => by
        obtain rfl : (⟨n, v⟩ : Object) = o' := Option.some.inj (ho.symm.trans ho')
        cases v with
        | greenlet => cases hv
        | _ => rfl
      rw [heq]
      refine he.modifyObject ho ⟨fun k hk hK => ?_, fun q => ?_⟩ fun hz ht => ⟨hz, ht⟩
      · have := (h₀ hn).exact k hk hK
        simp only [id]
        omega
      · have := (h₀ hn).urn q
        simp only [id]
        omega
    | some g =>
      obtain rfl : v = .greenlet g := Value.greenlet?_eq_some_iff.mp hv
      have hs := hp g (greenlet?_eq_some_iff.mpr ⟨n, ho⟩)
      refine he.modifyObject ho ⟨fun k hk hK => ?_, fun q => ?_⟩ fun hz ht => ⟨hz, ?_⟩
      · have := hs.exact k hk hK
        change (f g).tokens.count k + hand'.count k + Object.stock ⟨n, _⟩ r k =
          g.tokens.count k + hand.count k + Object.stock ⟨n, _⟩ r k
        have : Object.stock ⟨n, .greenlet (f g)⟩ r k = Object.stock ⟨n, .greenlet g⟩ r k := rfl
        omega
      · have := hs.urn q
        change (f g).tokens.count _ + hand'.count _ + 0 ≤ g.tokens.count _ + hand.count _ + 0
        omega
      · exact hh (by rw [count_of_some ho]; exact hz) g ht

theorem retain (he : Exact K spent hand w) (hr : 0 < w.count r) :
    Exact K spent (.object r :: hand) (w.retain r) := by
  obtain ⟨o, ho⟩ := object?_of_count hr
  rw [count_of_some ho] at hr
  refine he.modifyObject ho ⟨fun k hk hK => ?_, fun q => ?_⟩ fun hz => by omega
  · have ht : ({ o with count := o.count + 1 } : Object).tokens = o.tokens := rfl
    have hn : o.count ≠ 0 := by omega
    cases k with
    | object q =>
      by_cases hq : q = r
      · simp [Object.stock, ht, hq]
        omega
      · simp [Object.stock, ht, hq, Ne.symm hq]
    | doom q | grave q => simp [Object.stock, ht, hn]
    | _ => cases hk
  · have ht : ({ o with count := o.count + 1 } : Object).tokens = o.tokens := rfl
    simp [Object.stock, ht]

theorem alloc {v : Value} (he : Exact K spent (v.tokens ++ hand) w) :
    Exact K spent (.object w.heap.size :: hand) (w.alloc v).2 where
  even k hk hK := by
    have h₁ := he.even k hk hK
    have h₂ := demand_alloc (w := w) v k
    have hl : (w.alloc v).2.lost = w.lost := rfl
    have hs : (w.alloc v).2.stock k = w.stock k + if k = .object w.heap.size then 1 else 0 := by
      have hsize : (w.alloc v).2.heap.size = w.heap.size + 1 := by simp [World.alloc]
      have h₀ : w.count w.heap.size = 0 := by simp [count, object?_size]
      cases k with
      | object q =>
        simp only [stock, count_alloc, Token.object.injEq]
        by_cases hq : q = w.heap.size
        · simp [hq, h₀]
        · simp [hq]
      | doom q =>
        have : (w.alloc v).2.Gone q ↔ w.Gone q := by
          simp only [Gone, count_alloc, hsize]
          by_cases hq : q = w.heap.size
          · simp [hq]
          · rw [if_neg hq]
            exact and_congr_left fun _ =>
              ⟨fun h => Nat.lt_of_le_of_ne (Nat.le_of_lt_succ h) hq, Nat.lt_succ_of_lt⟩
        simp [stock, this]
      | grave q =>
        simp only [stock, object?_alloc]
        by_cases hq : q = w.heap.size
        · simp [hq, object?_size, Object.stock]
        · simp [hq]
      | _ => cases hk
    have hc : (Token.object w.heap.size :: hand).count k =
        hand.count k + if k = .object w.heap.size then 1 else 0 := by
      by_cases hx : k = .object w.heap.size
      · simp [hx]
      · simp [hx, List.count_cons_of_ne (Ne.symm hx)]
    simp only [owed, hl, List.count_append] at h₁ ⊢
    omega
  urns r hr := by
    have h₁ := demand_alloc (w := w) v (.urn r)
    have hw := he.urns r (by
      rw [List.count_append]
      rw [List.count_cons_of_ne (by simp)] at hr
      omega)
    refine ⟨Nat.lt_of_lt_of_le hw.1 (by simp [World.alloc]), fun o ho => hw.2 o ?_⟩
    rwa [object?_alloc, if_neg (Nat.ne_of_lt hw.1)] at ho

theorem release {o : Object} (he : Exact K spent (.object r :: hand) w) (ho : w.object? r = some o)
    (h : 1 < o.count) : Exact K spent hand (w.unref r) := by
  have ht : ({ o with count := o.count - 1 } : Object).tokens = o.tokens := rfl
  have hn : o.count ≠ 0 ∧ o.count - 1 ≠ 0 := by omega
  refine he.modifyObject ho ⟨fun k hk hK => ?_, fun q => ?_⟩ fun hz => by omega
  · cases k with
    | object q =>
      by_cases hq : q = r
      · simp [Object.stock, ht, hq]
        omega
      · simp [Object.stock, ht, hq, Ne.symm hq]
    | doom q | grave q => simp [Object.stock, ht, hn]
    | _ => cases hk
  · simp [Object.stock, ht]

theorem bury {o : Object} (he : Exact K spent (.object r :: hand) w) (ho : w.object? r = some o)
    (h : o.count = 1) : Exact K spent (.grave r :: .doom r :: hand) (w.unref r) := by
  have ht (n : Nat) : (⟨n, o.value⟩ : Object).tokens = o.tokens := rfl
  refine he.modifyObject ho ⟨fun k hk hK => ?_, fun q => ?_⟩ fun hz => by omega
  · cases k with
    | object q | doom q | grave q =>
      by_cases hq : q = r
      · simp [Object.stock, ht, hq, h]
        omega
      · simp [Object.stock, ht, hq, Ne.symm hq]
    | _ => cases hk
  · simp [Object.stock, ht]

theorem erase {o : Object} (he : Exact K spent (.grave r :: .urn r :: hand) w)
    (ho : w.object? r = some o) : Exact K spent hand (w.erase r) := by
  obtain ⟨hlt, hz⟩ := he.urns r (Nat.add_pos_right _ (List.count_pos_iff.mpr (by simp)))
  obtain ⟨hn, ht⟩ := hz o ho
  have hd (k : Token) : (w.erase r).demand k = w.demand k := by
    have := demand_erase ho k
    rwa [ht, List.count_nil, Nat.add_zero] at this
  have hsize : (w.erase r).heap.size = w.heap.size := by simp [World.erase]
  have hc (q : Ref) : (w.erase r).count q = w.count q := by
    simp only [World.count, object?_erase]
    split
    · subst_vars
      simp [ho, hn]
    · rfl
  refine ⟨fun k hk hK => ?_, fun q hq => ?_⟩
  · have h₁ := he.even k hk hK
    have hl : (w.erase r).lost = w.lost := rfl
    -- with the storage goes the claim to free it
    have hs : (w.erase r).stock k + (Token.grave r :: .urn r :: hand).count k =
        w.stock k + hand.count k := by
      cases k with
      | object q => simpa [stock] using hc q
      | doom q => simpa [stock] using if_congr (Gone.congr hsize (hc q)) rfl rfl
      | grave q =>
        simp only [stock, object?_erase]
        by_cases hq : q = r
        · simp [hq, ho, Object.stock, hn, Nat.add_comm]
        · simp [Ne.symm hq]
      | _ => cases hk
    simp only [owed, hd, hl] at h₁ ⊢
    omega
  · have hw := he.urns q (by
      rw [hd] at hq
      rw [List.count_cons_of_ne (by simp), List.count_cons]
      omega)
    refine ⟨hsize ▸ hw.1, fun o' ho' => hw.2 o' ?_⟩
    rw [object?_erase] at ho'
    split at ho'
    · cases ho'
    · exact ho'

end Exact

theorem Sane.hollow_of_grave (hs : Sane hand w) (hg : .grave r ∈ hand)
    (ht : (w.greenlet r).tokens = []) : w.Hollow r := by
  have hc := hs.count_of_grave hg
  have hp := List.count_pos_iff.mpr hg
  have hk := hs.covers (.grave r) rfl
  cases ho : w.object? r with
  | none =>
    simp only [supply, ho, Option.map_none, Option.getD_none] at hk
    omega
  | some o =>
    refine ⟨lt_size_of_object? ho, fun o' ho' => ?_⟩
    obtain rfl : o = o' := Option.some.inj (ho.symm.trans ho')
    rw [count_of_some ho] at hc
    refine ⟨hc, ?_⟩
    obtain ⟨n, v⟩ := o
    cases v with
    | greenlet g => rwa [greenlet_of_some (greenlet?_eq_some_iff.mpr ⟨n, ho⟩)] at ht
    | _ => rfl

theorem Sane.count_pos (hs : Sane hand w) (hr : 0 < w.demand (.object r) + hand.count (.object r)) :
    0 < w.count r := by
  have := hs.covers (.object r) rfl
  rw [supply_object] at this
  omega

end World

open World

variable {L : Licence} {w w' : World} {spent hand hand' : List Token}

namespace Effect

private theorem makeHome_exact (hw : w.Seated) (hv : w.thread.home = .vacant)
    (he : Exact K spent hand w) :
    Exact K spent hand (w.createHub.2.modifyThread fun t => { t with home := .full w.createHub.1 }) := by
  obtain ⟨h₁, id, hq⟩ := createHub_quiet w
  have he₁ : Exact K spent (.object w.heap.size :: hand) (w.alloc (.greenlet (w.newMain id))).2 :=
    Exact.alloc (he.trade (.of_eq fun k => by simp [Value.tokens, Greenlet.tokens, newMain]))
  have he₂ := he₁.retain (r := w.heap.size) (by rw [count_alloc, if_pos rfl]; exact Nat.one_pos)
  have he₃ : Exact K spent hand { (w.alloc (.greenlet (w.newMain id))).2.retain w.heap.size with
      hubs := w.hubs.push { thread := w.active, main := w.heap.size, current := w.heap.size } } := by
    refine he₂.settle (a := fun _ => 0) rfl rfl (fun k => demand_pushHub _ k) (.of_eq fun k => ?_)
    simp [Hub.tokens, List.count_cons]
    omega
  have he₄ := he₃.quiet hq
  have hw₄ : w.createHub.2.Seated := seated_createHub.mpr hw
  have ht : w.createHub.2.thread.home = .vacant := by
    obtain ⟨-, -, h⟩ := hq.thread (by exact hw)
    exact h.trans hv
  refine he₄.modifyThread hw₄ (.of_kept (fun r => ?_) (fun r => ?_) (fun r => ?_) fun r => ?_)
  all_goals simp [Thread.tokens, ht, Slot.tokens, Slot.get?]

private theorem create_exact {h : HubId} {run : RunFn} {p : Option Ref} {r : Ref}
    (hs : Sane (run.tokens ++ hand) w) (hh : w.Reaches h)
    (hp : ∀ q, p = some q → w.Offers (run.tokens ++ hand) q)
    (h₀ : w.createGreenlet h run p = (.ok r, w')) (he : Exact K spent (run.tokens ++ hand) w) :
    Exact K spent (.object r :: hand) w' := by
  obtain ⟨-, rfl, -, id, hq⟩ := createGreenlet_ok h₀
  have hpos : 0 < w.count (p.getD (w.hub h).current) := by
    refine hs.count_pos ?_
    cases p with
    | none => exact hs.offered (.current hh rfl)
    | some q => exact hs.offered (hp q rfl)
  have hz : (w.retain (p.getD (w.hub h).current)).heap.size = w.heap.size := by
    simp [World.retain, World.modifyObject]
  refine Exact.quiet ?_ hq
  refine Exact.modifyHub_of_eq ?_ fun s => rfl
  rw [← hz]
  refine Exact.alloc ((he.retain hpos).trade (.of_eq fun k => ?_))
  simp [Value.tokens, Greenlet.tokens, newGreenlet, List.count_cons]

/-- What is written into a frame that is not there may be lost. -/
private theorem frame_exact (hw : w.Seated) {g : Frame → Frame}
    (hc : ∀ k, (g w.frame).tokens.count k + hand'.count k =
      w.frame.tokens.count k + hand.count k) (hf : (∀ q, ¬ K (.object q)) ∨ w.HasFrame)
    (he : Exact K spent hand w) : Exact K spent hand' (w.modifyFrame g) := by
  by_cases hh : w.HasFrame
  · exact he.settle rfl rfl (demand_modifyFrame hw hh g) (.of_eq hc)
  · -- frames have nothing else to lose
    have key {k : Token} (hk : ∀ q, k ≠ .object q) : hand'.count k = hand.count k := by
      have h := hc k
      rwa [List.count_eq_zero_of_not_mem (Frame.notMem_tokens hk _),
        List.count_eq_zero_of_not_mem (Frame.notMem_tokens hk _), Nat.zero_add, Nat.zero_add] at h
    refine he.settle (a := fun _ => 0) (b := fun _ => 0) rfl rfl
      (demand_modifyFrame_of_not_hasFrame hw hh g)
      ⟨fun k _ hK => ?_, fun q => by simp [key (k := .urn q) (by simp)]⟩
    simp only [Nat.zero_add]
    refine key ?_
    rintro q rfl
    exact hf.resolve_right hh q hK

private theorem setParent_exact {r p : Ref} {old : Option Ref} (hs : Sane hand w)
    (hr : w.Offers hand r) (hp : w.Offers hand p) (hsp : w.setParent r p = (.ok old, w'))
    (hk : ¬ K (.object p)) (he : Exact K spent hand w) :
    Exact K spent ((old.map Token.object).toList ++ hand) w' := by
  obtain ⟨-, rfl, rfl⟩ := setParent_ok hsp
  have hpos : 0 < w.count r := hs.count_pos (hs.offered hr)
  refine (he.retain (hs.count_pos (hs.offered hp))).modifyGreenlet (fun g hg => .of_eq fun k => ?_)
    (fun hn => ⟨fun k _ hK => ?_, fun q => ?_⟩) fun hz => ?_
  · rw [greenlet?_retain] at hg
    rw [World.parent, greenlet_of_some hg]
    simp [Greenlet.tokens, Obj.tokens, List.count_cons]
    omega
  · rw [greenlet?_retain] at hn
    rw [World.parent, greenlet_of_none hn]
    simp [Greenlet.absent, List.count_cons]
    rintro rfl
    exact hk hK
  · rw [greenlet?_retain] at hn
    rw [World.parent, greenlet_of_none hn]
    simp [Greenlet.absent]
  · rw [count_retain] at hz
    split at hz <;> omega

private theorem spawn_exact (hw : w.Seated) (steps : List Script.Step) (he : Exact K spent hand w) :
    Exact K spent hand (w.spawnStep steps) := by
  have hj : Exact K spent hand (w.push [.join (w.threads.size + 1)]) :=
    he.push hw (.of_eq fun k => by simp [Task.tokens])
  exact hj.settle (a := fun _ => 0) (b := fun _ => 0) rfl rfl (fun k => demand_spawnStep steps k)
    (.of_eq fun _ => rfl)

theorem exact (e : Effect L hand w hand' w') (hl : ∀ k, K k → ¬ L.Loses k)
    (hk : ∀ q p, L.links q → ¬ K (.object p)) (hs : Sane hand w) (he : Exact K spent hand w) :
    Exact K spent hand' w' := by
  induction e with
  | trade h => exact he.trade (.of_eq h)
  | quiet hq => exact he.quiet hq
  | trans e _ ih ih' => exact ih' (e.widen.sane hs) (ih hs he)
  | push ts _ hc => exact he.push hs.seated (.of_eq hc)
  | frame g hc hf => exact frame_exact hs.seated hc (hf.imp_left fun h q hK => hl _ hK h) he
  | alloc v hv => exact Exact.alloc (he.trade (.of_eq fun k => by simp [Value.tokens_of_greenlet? hv]))
  | retain r ho => exact he.retain (hs.count_pos (hs.offered ho))
  | @tables hand hand' w a b c hc =>
    refine he.settle (a := fun k => w.tableTokens.count k)
      (b := fun k => { w with handles := a, objects := b, outs := c }.tableTokens.count k) rfl rfl
      (fun k => ?_) (.of_eq hc)
    simp only [demand]
    omega
  | @register hand w f hv =>
    have ha : Exact K spent (.object w.heap.size :: hand) (w.alloc (.failure f)).2 :=
      Exact.alloc (he.trade (.of_eq fun k => by simp [Value.tokens]))
    have hv : (w.alloc (.failure f)).2.thread.pending = .vacant := hv
    refine Exact.modifyThread (w := (w.alloc (.failure f)).2) ha hs.seated (.of_eq fun k => ?_)
    simp [Thread.tokens, hv, Slot.tokens, Slot.get?, List.count_cons]
    omega
  | take hf =>
    refine he.modifyThread hs.seated (.of_eq fun k => ?_)
    simp [Thread.tokens, hf, Slot.tokens, Slot.get?, List.count_cons]
    omega
  | holdHub h =>
    refine Exact.trade (he.modifyHub_of_eq fun s => rfl) (.of_kept ?_ ?_ ?_ ?_)
    all_goals simp
  | makeHome hv => exact makeHome_exact hs.seated hv he
  | create hh hp hc => exact create_exact hs hh hp hc he
  | setParent hr hp hsp hlk => exact setParent_exact hs hr hp hsp (hk _ _ hlk) he
  | call p _ _ _ hc => exact he.push hs.seated (.of_eq hc)
  | collect name d =>
    refine he.push hs.seated (.of_eq fun k => ?_)
    simp [Task.tokens, List.count_cons, Nat.add_comm]
  | spawn steps => exact spawn_exact hs.seated steps he
  | @fail hand w p =>
    have h₁ : Exact K spent hand (w.push [.fail p]) :=
      he.push hs.seated (.of_eq fun k => by simp [Task.tokens])
    exact h₁.modifyThread ((seated_modifyThread _).mpr hs.seated) (.of_eq fun k => rfl)

theorem gone (e : Effect L hand w hand' w') {q : Ref} (h : w'.Gone q) : w.Gone q := by
  have quiet {v v' : World} (hq : Quiet v v') (h : v'.Gone q) : v.Gone q := by
    simpa only [Gone, World.count, hq.object?, hq.heap] using h
  induction e with
  | trans _ _ ih ih' => exact ih (ih' h)
  | quiet hq => exact quiet hq h
  | alloc | register => exact Gone.of_alloc h
  | retain => exact h.of_retain
  | @makeHome hand w =>
    obtain ⟨-, id, hq⟩ := createHub_quiet w
    exact Gone.of_alloc (quiet hq h : Gone _ q).of_retain
  | create _ _ hc =>
    obtain ⟨-, -, -, id, hq⟩ := createGreenlet_ok hc
    have h := quiet hq h
    exact Gone.of_retain (Gone.of_alloc h)
  | setParent _ _ hs =>
    obtain ⟨-, -, rfl⟩ := setParent_ok hs
    exact h.of_modifyGreenlet.of_retain
  | _ => exact h

end Effect

namespace Motion

variable {r : Ref} {h : HubId}

private theorem current_exact (hs : Sane (.object r :: hand) w) (hh : w.Enters h)
    (he : Exact K spent (.object r :: hand) w) :
    Exact K spent (.object (w.hub h).current :: hand)
      (w.modifyHub h fun s => { s with current := r }) := by
  obtain ⟨hlt, hd⟩ := hs.undisposed hh
  refine he.modifyHub (fun _ => .of_eq fun k => ?_) fun hn => absurd hlt hn
  simp only [Hub.tokens, hd, Bool.false_eq_true, if_false, List.count_append, List.count_cons]
  omega

private theorem dispose_exact (hs : Sane (.tomb h :: hand) w) (he : Exact K spent (.tomb h :: hand) w) :
    Exact K spent ({ w.hub h with disposed := false }.tokens ++ hand)
      (w.modifyHub h fun s => { s with
        outgoing := none, deferred := [], foreign := [], disposed := true }) := by
  obtain ⟨hlt, hd, -⟩ := hs.of_tomb (h := h) (by
    rw [List.count_cons_self]
    omega)
  have h₁ : ({ w.hub h with disposed := false } : Hub).tokens = (w.hub h).tokens := by
    simp [Hub.tokens, hd]
  have h₂ : ({ w.hub h with outgoing := none, deferred := [], foreign := [], disposed := true } :
      Hub).tokens = [] := by simp [Hub.tokens]
  refine he.modifyHub (fun _ => .of_kept (fun q => ?_) (fun q => ?_) (fun q => ?_) fun q => ?_)
    fun hn => absurd hlt hn
  all_goals
    rw [h₁, h₂]
    simp

private theorem restore_exact {o : Object} {v : Value} (ho : w.object? r = some o) (h : o.count = 1)
    (hv : o.value.Revives v) (he : Exact K spent (.object r :: hand) w) :
    Exact K spent (.object r :: hand) (w.modifyObject r fun _ => ⟨1, v⟩) := by
  have ht : (⟨1, v⟩ : Object).tokens = o.tokens := by
    rcases hv.greenlet? with rfl | ⟨h₁, h₂⟩
    · rfl
    · exact (Value.tokens_of_greenlet? h₂).trans (Value.tokens_of_greenlet? h₁).symm
  refine he.modifyObject ho (.of_kept (fun q => ?_) (fun q => ?_) (fun q => ?_) fun q => ?_)
    fun hz => by omega
  all_goals simp [Object.stock, ht, h]

theorem gone (m : Motion L hand w hand' w') (hs : Sane hand w) {q : Ref} (h : w'.Gone q) :
    w.Gone q ∨ L.drops q := by
  have spared {v : World} {r : Ref} (hq : r ≠ q) (h : (v.unref r).Gone q) : v.Gone q :=
    (Gone.congr (by simp [unref, World.modifyObject])
      (by rw [unref, count_modifyObject, if_neg hq])).mp h
  induction m with
  | script e => exact .inl (e.gone h)
  | trans m _ ih ih' => exact (ih' (m.widen.sane hs) h).elim (ih hs) .inr
  | retain => exact .inl h.of_retain
  | @release _ w r o hd ho hn =>
    refine .inl (h.of_modifyObject fun o' ho' h₀ => ?_)
    obtain rfl : o = o' := Option.some.inj (ho.symm.trans ho')
    change o.count - 1 = 0 at h₀
    omega
  | @bury _ w r _ hd =>
    by_cases hq : r = q
    · exact .inr (hq ▸ hd)
    · exact .inl (spared hq h)
  | @retire _ w r _ _ hd =>
    by_cases hq : r = q
    · exact .inr (hq ▸ hd)
    · refine .inl (spared hq ?_)
      split at h <;> exact h
  | restore => exact .inl (h.of_modifyObject fun _ _ h => absurd h Nat.one_ne_zero)
  | clear | greenlet => exact .inl h.of_modifyGreenlet
  | @erase _ w r =>
    have hlt : q < w.heap.size := by simpa [World.erase] using h.1
    by_cases hq : q = r
    · exact .inl ⟨hlt, hq ▸ hs.count_of_grave (by simp)⟩
    · refine .inl ⟨hlt, ?_⟩
      have := h.2
      rwa [World.count, object?_erase, if_neg (Ne.symm hq)] at this
  | _ => exact .inl h

theorem exact (m : Motion L hand w hand' w') (hl : ∀ k, K k → ¬ L.Loses k)
    (hk : ∀ q p, L.links q → ¬ K (.object p)) (hs : Sane hand w) (he : Exact K spent hand w) :
    Exact K spent hand' w' := by
  have last {hand : List Token} {w : World} {r : Ref} {o : Object}
      (hs : Sane (.object r :: hand) w) (ho : w.object? r = some o) (h : o.count ≤ 1) :
      o.count = 1 := by
    have := hs.count_pos (r := r) (Nat.add_pos_right _ (List.count_pos_iff.mpr (by simp)))
    rw [count_of_some ho] at this
    omega
  induction m with
  | script e => exact e.exact hl hk hs he
  | trade h => exact he.trade (.of_pays h hl)
  | trans m _ ih ih' => exact ih' (m.widen.sane hs) (ih hs he)
  | lock l =>
    exact he.settle (a := fun _ => 0) (b := fun _ => 0) rfl rfl (fun _ => rfl) (.of_eq fun _ => rfl)
  | control _ _ hc hx =>
    exact he.setControl hs.seated
      (fun k hk hK => (hx hs.framed k hk).resolve_left (hl k hK)) fun r => hc hs.framed (.urn r) rfl
  | retain r hb => exact he.retain (hs.count_pos (hs.backed hb))
  | release _ ho h => exact he.release ho h
  | bury _ ho h => exact he.bury ho (last hs ho h)
  | retire _ ho h =>
    have hb := he.bury ho (last hs ho h)
    split
    · exact hb.modifyHub_of_eq fun _ => rfl
    · exact hb
  | restore _ ho h hv => exact restore_exact ho (last hs ho h) hv he
  | clear r =>
    refine he.modifyGreenlet (fun g hg => .of_eq fun k => ?_) (fun hn => .of_eq fun k => ?_)
      fun _ _ _ => rfl
    · rw [greenlet_of_some hg]
      simp [Greenlet.tokens, List.count_cons]
      omega
    · rw [greenlet_of_none hn]
      simp [Greenlet.absent, Greenlet.tokens]
  | @empty hand w r h =>
    refine ⟨fun k hk hK => ?_, fun q hq => ?_⟩
    · have := he.even k hk hK
      cases k with
      | object | doom | grave => simpa [List.count_cons] using this
      | _ => cases hk
    · by_cases hq' : q = r
      · subst hq'
        exact hs.hollow_of_grave (by simp) h
      · exact he.urns q (by
          simpa [List.count_cons, Ne.symm hq'] using hq)
  | @erase hand w r =>
    have hg := hs.covers (.grave r) rfl
    rw [List.count_cons_self] at hg
    cases ho : w.object? r with
    | none => simp [supply, ho] at hg
    | some o => exact he.erase ho
  | @greenlet hand hand' w r f _ _ _ hx hc h₀ =>
    refine he.modifyGreenlet (fun g hg => .of_pays (hc g hg) hl) (fun hn => .of_pays (h₀ hn) hl)
      fun hn => hx.resolve_left fun hr => ?_
    have := hs.count_pos (r := r) (Nat.lt_of_lt_of_le (List.count_pos_iff.mpr hr) (Nat.le_add_left _ _))
    omega
  | hub _ _ hc h₀ => exact he.modifyHub (fun _ => .of_pays hc hl) fun hn => .of_pays (h₀ hn) hl
  | @send hand w r h hh =>
    refine he.modifyHub (fun _ => .of_kept (fun q => ?_) (fun q => ?_) (fun q => ?_) fun q => ?_)
      fun hn => absurd hh hn
    · simp [Hub.tokens, Token.queued, List.count_cons]
      omega
    all_goals simp [Hub.tokens, Token.queued]
  | current _ hh => exact current_exact hs hh he
  | names a ha hc =>
    obtain rfl := hs.names ha
    exact he.trade (.of_eq fun k => Nat.add_left_cancel (hc k))
  | expire =>
    refine he.modifyThread hs.seated (.of_eq fun k => ?_)
    simp [Thread.tokens, Slot.tokens, Obj.tokens, Slot.get?]
    omega
  | vacate hv =>
    refine he.modifyThread hs.seated (.of_eq fun k => ?_)
    have hg : (Slot.gone : Slot HubId).get? = none := rfl
    simp [Thread.tokens, Slot.tokens, hv, hg]
  | hold =>
    refine Exact.trade (he.modifyHub_of_eq fun s => rfl) (.of_kept ?_ ?_ ?_ ?_)
    all_goals simp
  | leave =>
    refine Exact.trade (he.modifyHub_of_eq fun s => rfl) (.of_kept ?_ ?_ ?_ ?_)
    all_goals
      intro r
      split <;> simp
  | close => exact he.modifyHub_of_eq fun s => rfl
  | dispose => exact dispose_exact hs he

end Motion

end Switchyard
