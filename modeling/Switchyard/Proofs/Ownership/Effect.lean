import Switchyard.Proofs.Ownership.Spare

/-!
# Effects keep the books

What scripts do keeps every claim covered.
-/

namespace Switchyard

open World Token

namespace World

variable {K : Token → Prop} {w w' : World} {hand hand' : List Token}

theorem Reaches.home (hn : w.named = .empty) {h : HubId} (hr : w.Reaches h) :
    w.thread.home = .full h := by
  rcases hr with hr | ⟨name, hr⟩
  · exact hr
  · rw [hn] at hr
    cases hr

namespace Covered

theorem demand_of_thread {i : Nat} {t : Thread} (ht : w.threads[i]? = some t) {k : Token}
    (hk : k ∈ t.tokens) : 0 < w.demand k := by
  have := le_total (fun t : Thread => t.tokens.count k) ht
  have := List.count_pos_iff.mpr hk
  simp only [demand]
  omega

theorem demand_of_home {i : Nat} {t : Thread} (ht : w.threads[i]? = some t) {h : HubId}
    (hh : t.home = .full h) : 0 < w.demand (.hub h) :=
  demand_of_thread ht (by simp [Thread.tokens, hh, Slot.tokens, Slot.get?])

theorem demand_of_reaches (hw : w.Seated) {h : HubId} (hr : w.Reaches h) :
    0 < w.demand (.hub h) := by
  rcases hr with hr | ⟨name, hr⟩
  · exact demand_of_home hw.getElem? hr
  · have ht : .hub h ∈ w.tableTokens := by
      simp only [tableTokens, List.mem_append]
      exact .inr (Table.mem_tokens_of_find? _ hr (by simp))
    have := List.count_pos_iff.mpr ht
    simp only [demand]
    omega

end Covered

theorem demand_alloc (v : Value) (k : Token) :
    (w.alloc v).2.demand k = w.demand k + v.tokens.count k := by
  simp only [demand, World.alloc, total_push, slotTokens, Option.map_some, Option.getD_some,
    Object.tokens, tableTokens]
  omega

theorem demand_pushHub (s : Hub) (k : Token) :
    { w with hubs := w.hubs.push s }.demand k = w.demand k + s.tokens.count k := by
  simp only [demand, total_push, tableTokens]
  omega

theorem demand_erase {r : Ref} {o : Object} (ho : w.object? r = some o) (k : Token) :
    (w.erase r).demand k + o.tokens.count k = w.demand k := by
  have := total_modify (fun o => (slotTokens o).count k) (heap_of_object ho) fun _ => none
  simp only [slotTokens, Option.map_some, Option.getD_some, Option.map_none, Option.getD_none,
    List.count_nil] at this
  simp only [demand, World.erase, tableTokens, slotTokens]
  omega

namespace Covers

theorem hub_of_demand {h : HubId} (hK : K (.hub h)) (hc : Covers K hand w)
    (hd : 0 < w.demand (.hub h) + hand.count (.hub h)) :
    h < w.hubs.size ∧ (w.hub h).disposed = false ∧ 0 < (w.hub h).holders := by
  have hz := hc (.hub h) hK
  cases hs : w.hubs[h]? with
  | none => simp [supply, hs] at hz; omega
  | some s =>
    simp only [supply, hs, Option.map_some, Option.getD_some, Hub.supply, true_and] at hz
    rw [hub_of_some hs]
    have hlt : h < w.hubs.size := by
      by_contra hlt
      simp [Array.getElem?_eq_none (Nat.le_of_not_lt hlt)] at hs
    refine ⟨hlt, ?_⟩
    split at hz
    · rename_i hd
      exact ⟨hd, by omega⟩
    · omega

theorem of_reaches {h : HubId} (hK : K (.hub h)) (hc : Covers K hand w) (hw : w.Seated)
    (hr : w.Reaches h) : h < w.hubs.size ∧ (w.hub h).disposed = false ∧ 0 < (w.hub h).holders :=
  hc.hub_of_demand hK (by have := Covered.demand_of_reaches hw hr; omega)

private theorem supply_alloc (v : Value) (k : Token) :
    (w.alloc v).2.supply k =
      if k = .object w.heap.size ∨ k = .sole w.heap.size then 1 else w.supply k := by
  cases k with
  | object r | sole r | grave r =>
    simp only [supply, object?_alloc]
    by_cases hr : r = w.heap.size
    · simp [hr, Object.supply, object?_size]
    · simp [hr]
  | _ => simp only [reduceCtorEq, or_self, if_false]; rfl

private theorem supply_size :
    w.supply (.object w.heap.size) = 0 ∧ w.supply (.sole w.heap.size) = 0 := by
  simp [supply, object?_size]

theorem alloc {v : Value} (hc : Covers K (v.tokens ++ hand) w) :
    Covers K (.object w.heap.size :: hand) (w.alloc v).2 := fun k hK => by
  have hk := hc k hK
  have hd := demand_alloc (w := w) v k
  obtain ⟨h₁, h₂⟩ := supply_size (w := w)
  rw [supply_alloc, hd]
  simp only [List.count_append] at hk
  by_cases hs : k = .object w.heap.size
  · subst hs
    simp only [true_or, if_true, List.count_cons_self]
    omega
  · rw [List.count_cons_of_ne (Ne.symm hs)]
    by_cases hs' : k = .sole w.heap.size
    · subst hs'
      simp only [or_true, if_true]
      omega
    · simp only [hs, hs', or_self, if_false]
      omega

theorem pushHub {s : Hub} (hd : s.disposed = false) (h₁ : s.holders = 1)
    (hc : Covers K (s.tokens ++ hand) w) :
    Covers K (.hub w.hubs.size :: hand) { w with hubs := w.hubs.push s } := fun k hK => by
  have hk := hc k hK
  rw [demand_pushHub]
  simp only [List.count_append] at hk
  have hn : w.supply (.hub w.hubs.size) = 0 := by simp [supply]
  have hsup : { w with hubs := w.hubs.push s }.supply k =
      if k = .hub w.hubs.size then 1 else w.supply k := by
    cases k with
    | hub q | tomb q =>
      simp only [supply, Array.getElem?_push]
      by_cases hq : q = w.hubs.size
      · simp [hq, Hub.supply, hd, h₁]
      · simp [hq]
    | _ => simp only [reduceCtorEq, if_false]; rfl
  rw [hsup]
  by_cases hs : k = .hub w.hubs.size
  · subst hs
    simp only [if_true, List.count_cons_self]
    omega
  · rw [List.count_cons_of_ne (Ne.symm hs)]
    simp only [hs, if_false]
    omega

theorem createHub (hR : ∀ r, K (.object r)) (hs : ∀ r, K (.sole r) → .sole r ∉ hand)
    (hc : Covers K hand w) : Covers K (.hub w.hubs.size :: hand) w.createHub.2 := by
  obtain ⟨-, id, hq⟩ := createHub_quiet w
  have hc₁ : Covers K (.object w.heap.size :: hand) (w.alloc (.greenlet (w.newMain id))).2 :=
    alloc (hc.trade fun k _ => by simp [Value.tokens, Greenlet.tokens, newMain])
  have hc₂ := hc₁.copy (r := w.heap.size) (hR _) (.inr (by simp)) (by simpa using hs w.heap.size)
  have hc₃ : Covers K (Hub.tokens
      { thread := w.active, main := w.heap.size, current := w.heap.size } ++ hand)
      ((w.alloc (.greenlet (w.newMain id))).2.retain w.heap.size) :=
    hc₂.trade fun k _ => by simp [Hub.tokens]
  exact .quiet hq (hc₃.pushHub rfl rfl)

theorem erase {r : Ref} (hG : K (.grave r)) (hc : Covers K (.grave r :: hand) w) :
    Covers K hand (w.erase r) := fun k hK => by
  have hk := hc k hK
  have hg := hc (.grave r) hG
  rw [List.count_cons_self] at hg
  cases ho : w.object? r with
  | none => simp [supply, ho] at hg
  | some o =>
    have h₀ : o.count = 0 := by
      by_contra h
      simp [supply, ho, Object.supply, h] at hg
    have hd := demand_erase ho k
    have hs : (w.erase r).supply k + (if k = .grave r then 1 else 0) = w.supply k := by
      cases k with
      | object q | sole q | grave q =>
        simp only [supply, object?_erase]
        by_cases hq : r = q
        · subst hq
          simp [ho, Object.supply, h₀]
        · simp [hq, Ne.symm hq]
      | _ => simp only [reduceCtorEq, if_false]; rfl
    rw [List.count_cons] at hk
    by_cases hq : k = .grave r
    · subst hq
      simp only [beq_self_eq_true, if_true] at hk hs
      omega
    · simp only [beq_iff_eq, Ne.symm hq, hq, if_false] at hk hs
      omega

end Covers

namespace Covered

theorem hub_of_demand (hc : Covered hand w) {h : HubId}
    (hd : 0 < w.demand (.hub h) + hand.count (.hub h)) :
    h < w.hubs.size ∧ (w.hub h).disposed = false ∧ 0 < (w.hub h).holders :=
  Covers.hub_of_demand (K := (·.isBacked = true)) rfl hc hd

theorem erase {r : Ref} (hc : Covered (.grave r :: hand) w) : Covered hand (w.erase r) :=
  Covers.erase (K := (·.isBacked = true)) rfl hc

end Covered

end World

namespace Effect

variable {K : Token → Prop} {w w' : World} {hand hand' : List Token}

theorem named (e : Effect .full hand w hand' w') : w'.named = w.named := by
  induction e with
  | quiet h => exact h.named
  | trans _ _ ih ih' => exact ih'.trans ih
  | create _ _ hc =>
    obtain ⟨-, -, -, _, hq⟩ := createGreenlet_ok hc
    exact hq.named
  | setParent _ _ hs =>
    obtain ⟨-, -, rfl⟩ := setParent_ok hs
    rfl
  | _ => rfl

private theorem notMem_of_count {k : Token} {l : List Token} (h : l.count k = 0) : k ∉ l :=
  fun hm => Nat.lt_irrefl 0 (h ▸ List.count_pos_iff.mpr hm)

theorem soleless {r : Ref} (e : Effect .full hand w hand' w') (hs : .sole r ∉ hand) :
    .sole r ∉ hand' := by
  induction e with
  | trade h => exact fun hr => hs (List.count_pos_iff.mp (h _ ▸ List.count_pos_iff.mpr hr))
  | quiet | register | makeHome | spawn | fail => exact hs
  | trans _ _ ih ih' => exact ih' (ih hs)
  | push ts _ hc | call _ _ _ _ hc =>
    have := hc (.sole r)
    have := List.count_eq_zero_of_not_mem hs
    exact notMem_of_count (by omega)
  | frame g h hf =>
    rename_i v
    have := h (.sole r)
    have := List.count_eq_zero_of_not_mem hs
    have hf : Token.sole r ∉ v.frame.tokens := Frame.notMem_tokens (by simp) _
    have := List.count_eq_zero_of_not_mem hf
    exact notMem_of_count (by omega)
  | tables a b c h =>
    rename_i v
    have := h (.sole r)
    have := List.count_eq_zero_of_not_mem hs
    have ht : Token.sole r ∉ v.tableTokens := notMem_tableTokens (by simp) (by simp) v
    have := List.count_eq_zero_of_not_mem ht
    exact notMem_of_count (by omega)
  | alloc | retain | take | holdHub => simpa using hs
  | create => simpa using fun h => hs (by simp [h])
  | setParent => simpa using hs
  | collect => exact fun h => hs (by simp [h])

private theorem tokensOf_modifyFrameOf (g : Frame → Frame) (s : List (Item Task)) (k : Token) :
    (Item.tokensOf (modifyFrameOf g s)).count k + (((frameOf s).map Frame.tokens).getD []).count k =
      (Item.tokensOf s).count k + (((frameOf s).map fun f => (g f).tokens).getD []).count k := by
  induction s with
  | nil => rfl
  | cons i s ih =>
    unfold modifyFrameOf frameOf
    split
    · rename_i h
      cases h
    · rename_i f rest h
      obtain ⟨rfl, rfl⟩ := List.cons.inj h
      simp only [Item.tokensOf_cons, Item.tokens, Task.tokens, List.count_append, Option.map_some,
        Option.getD_some]
      omega
    · rename_i j rest hj h
      obtain ⟨rfl, rfl⟩ := List.cons.inj h
      simp only [Item.tokensOf_cons, List.count_append]
      omega

theorem demand_modifyFrame (hw : w.Seated) (hf : w.HasFrame) (g : Frame → Frame) (k : Token) :
    (w.modifyFrame g).demand k + w.frame.tokens.count k =
      w.demand k + (g w.frame).tokens.count k := by
  obtain ⟨f, hf⟩ := Option.isSome_iff_exists.mp hf
  have hs := tokensOf_modifyFrameOf g w.thread.stack k
  have hd := demand_modifyThread hw (fun t => { t with stack := modifyFrameOf g t.stack }) k
  have he : w.frame = f := by simp [World.frame, hf]
  simp only [hf, Option.map_some, Option.getD_some] at hs
  simp only [Thread.tokens, List.count_append] at hd
  change (w.modifyThread _).demand k + _ = _
  rw [he]
  omega

theorem demand_modifyFrame_of_not_hasFrame (hw : w.Seated) (hf : ¬ w.HasFrame) (g : Frame → Frame)
    (k : Token) : (w.modifyFrame g).demand k = w.demand k := by
  have hn : frameOf w.thread.stack = none := Option.not_isSome_iff_eq_none.mp hf
  have hs := tokensOf_modifyFrameOf g w.thread.stack k
  have hd := demand_modifyThread hw (fun t => { t with stack := modifyFrameOf g t.stack }) k
  simp only [hn, Option.map_none, Option.getD_none, List.count_nil] at hs
  simp only [Thread.tokens, List.count_append] at hd
  change (w.modifyThread _).demand k = _
  omega

private theorem frame_covered (hw : w.Seated) {g : Frame → Frame}
    (h : ∀ k, (g w.frame).tokens.count k + hand'.count k ≤ w.frame.tokens.count k + hand.count k)
    (hc : Covers K hand w) : Covers K hand' (w.modifyFrame g) := by
  refine hc.modifyThread hw fun k _ => ?_
  have hs := tokensOf_modifyFrameOf g w.thread.stack k
  have hk := h k
  simp only [Thread.tokens, List.count_append]
  cases hf : frameOf w.thread.stack with
  | none =>
    have he : w.frame = {} := by simp [World.frame, hf]
    simp only [hf, Option.map_none, Option.getD_none, List.count_nil] at hs
    have : hand'.count k ≤ hand.count k := by
      have h₀ : (Frame.tokens {}).count k = 0 := rfl
      rw [he, h₀] at hk
      omega
    omega
  | some f =>
    have he : w.frame = f := by simp [World.frame, hf]
    simp only [hf, Option.map_some, Option.getD_some] at hs
    rw [he] at hk
    omega

private theorem offers_frame (hw : w.Seated) {r : Ref} (h : .object r ∈ w.frame.tokens) :
    0 < w.spare r := by
  refine spare_of_thread hw.getElem? ?_
  have key (s : List (Item Task)) (f : Frame) (hf : frameOf s = some f)
      (hr : .object r ∈ f.tokens) : 0 < surplus r (Item.tokensOf s) := by
    induction s with
    | nil => cases hf
    | cons i s ih =>
      rw [Item.tokensOf_cons, surplus_append i.paired_tokens (Item.paired_tokensOf s)]
      unfold frameOf at hf
      split at hf
      · rename_i h
        cases h
      · rename_i f' rest h
        obtain ⟨rfl, rfl⟩ := List.cons.inj h
        obtain rfl := Option.some.inj hf
        have := surplus_of_notMem (l := Item.tokens (.task (.frame f'))) (r := r)
          (Frame.notMem_tokens (by simp) f')
        have : 0 < (Item.tokens (.task (.frame f'))).count (.object r) := List.count_pos_iff.mpr hr
        omega
      · rename_i h
        obtain ⟨rfl, rfl⟩ := List.cons.inj h
        have := ih hf
        omega
  have hp : Paired (w.thread.pending.tokens .object) := .of_notMem fun _ => by simp [Slot.tokens]
  have hh : Paired (w.thread.home.tokens .hub) := .of_notMem fun _ => by simp [Slot.tokens]
  have hs := Item.paired_tokensOf w.thread.stack
  unfold Thread.tokens
  rw [surplus_append (hs.append hp) hh, surplus_append hs hp]
  cases hf : frameOf w.thread.stack with
  | none =>
    have he : w.frame = {} := by simp [World.frame, hf]
    rw [he] at h
    cases h
  | some f =>
    have he : w.frame = f := by simp [World.frame, hf]
    have := key _ f hf (he ▸ h)
    omega

theorem offered (hH : ∀ h, K (.hub h)) (hw : w.Seated) (hc : Covers K hand w) {r : Ref}
    (h : w.Offers hand r) : 0 < w.spare r ∨ .object r ∈ hand := by
  cases h with
  | hand h hs => exact .inr h
  | table h => exact .inl (spare_of_table h)
  | frame h => exact .inl (offers_frame hw h)
  | main hh hr =>
    obtain ⟨h₁, h₂, -⟩ := hc.of_reaches (hH _) hw hh
    exact .inl (hr ▸ (spare_of_main h₁ h₂).1)
  | current hh hr =>
    obtain ⟨h₁, h₂, -⟩ := hc.of_reaches (hH _) hw hh
    exact .inl (hr ▸ (spare_of_main h₁ h₂).2)
  | parent hh hr => exact .inl (spare_of_parent hr)

private theorem makeHome_covered (hR : ∀ r, K (.object r)) (hw : w.Seated)
    (hv : w.thread.home = .vacant) (hs : ∀ r, K (.sole r) → .sole r ∉ hand) (hc : Covers K hand w) :
    Covers K hand (w.createHub.2.modifyThread fun t => { t with home := .full w.createHub.1 }) := by
  obtain ⟨h₁, id, hq⟩ := createHub_quiet w
  refine (hc.createHub hR hs).modifyThread (seated_createHub.mpr hw) fun k _ => ?_
  have ht : w.createHub.2.thread.home = .vacant := by
    obtain ⟨-, -, h⟩ := hq.thread (by exact hw)
    exact h.trans hv
  simp only [Thread.tokens, List.count_append, h₁, ht, Slot.tokens, Slot.get?, Option.map_some,
    Option.map_none, Option.toList_some, Option.toList_none, List.count_nil, List.count_cons]
  omega

private theorem create_covered (hR : ∀ r, K (.object r)) (hH : ∀ h, K (.hub h)) (hw : w.Seated)
    {h : HubId} {run : RunFn} {p : Option Ref} {r : Ref}
    (hs : ∀ r, K (.sole r) → .sole r ∉ run.tokens ++ hand) (hh : w.Reaches h)
    (hp : ∀ q, p = some q → w.Offers (run.tokens ++ hand) q)
    (h₀ : w.createGreenlet h run p = (.ok r, w')) (hc : Covers K (run.tokens ++ hand) w) :
    Covers K (.object r :: hand) w' := by
  obtain ⟨-, rfl, -, id, hq⟩ := createGreenlet_ok h₀
  refine Covers.quiet hq (Covers.modifyHub_of_eq (fun s => ⟨rfl, rfl, rfl⟩) ?_)
  have ho : 0 < w.spare (p.getD (w.hub h).current) ∨
      .object (p.getD (w.hub h).current) ∈ run.tokens ++ hand := by
    cases p with
    | none => exact offered hH hw hc (.current hh rfl)
    | some q => exact offered hH hw hc (hp q rfl)
  have hz : (w.retain (p.getD (w.hub h).current)).heap.size = w.heap.size := by
    simp [World.retain, modifyObject]
  rw [← hz]
  refine Covers.alloc ((hc.copy (hR _) ho (hs _)).trade fun k _ => ?_)
  simp [Value.tokens, Greenlet.tokens, newGreenlet, List.count_cons]

private theorem setParent_covered (hR : ∀ r, K (.object r)) (hH : ∀ h, K (.hub h))
    (hw : w.Seated) {r p : Ref} {old : Option Ref}
    (hs : ∀ r, K (.sole r) → .sole r ∉ hand) (hp : w.Offers hand p)
    (h₀ : w.setParent r p = (.ok old, w')) (hc : Covers K hand w) :
    Covers K ((old.map Token.object).toList ++ hand) w' := by
  obtain ⟨-, rfl, rfl⟩ := setParent_ok h₀
  refine (hc.copy (hR p) (offered hH hw hc hp) (hs p)).modifyGreenlet (fun g hg k _ => ?_)
    fun hg k _ => ?_
  · rw [greenlet?_retain] at hg
    simp only [World.parent, greenlet_of_some hg, Greenlet.tokens, List.count_append,
      List.count_cons, Obj.tokens]
    simp [List.count_cons]
    omega
  · rw [greenlet?_retain] at hg
    simp [World.parent, greenlet_of_none hg, Greenlet.absent, List.count_cons]

theorem demand_spawnStep (steps : List Script.Step) (k : Token) :
    (w.spawnStep steps).demand k = (w.push [.join (w.threads.size + 1)]).demand k := by
  simp only [demand, spawnStep, total_push, tableTokens]
  simp [Thread.tokens, Item.tokens, Task.tokens, Frame.tokens, Slot.tokens, Slot.get?]

private theorem spawn_covered (hw : w.Seated) (steps : List Script.Step) (hc : Covers K hand w) :
    Covers K hand (w.spawnStep steps) := by
  have hj : Covers K hand (w.push [.join (w.threads.size + 1)]) :=
    hc.push hw fun k _ => by simp [Task.tokens]
  intro k hK
  have hk := hj k hK
  have hd := demand_spawnStep (w := w) steps k
  have hsup : (w.spawnStep steps).supply k = (w.push [.join (w.threads.size + 1)]).supply k := by
    cases k <;> rfl
  omega

private theorem fail_covered (hw : w.Seated) (p : Panic) (hc : Covers K hand w) :
    Covers K hand (w.fail p) := by
  have h₁ : Covers K hand (w.push [.fail p]) := hc.push hw fun k _ => by simp [Task.tokens]
  exact h₁.modifyThread ((seated_modifyThread _).mpr hw) fun k _ => Nat.le_refl _

theorem covers (hR : ∀ r, K (.object r)) (hH : ∀ h, K (.hub h)) (e : Effect .full hand w hand' w')
    (hw : w.Seated) (hs : ∀ r, K (.sole r) → .sole r ∉ hand)
    (hc : Covers K hand w) : Covers K hand' w' := by
  induction e with
  | trade h => exact hc.trade fun k _ => Nat.le_of_eq (h k)
  | quiet h => exact Covers.quiet h hc
  | trans e _ ih ih' =>
    exact ih' (e.seated hw) (fun r hK => e.soleless (hs r hK)) (ih hw hs hc)
  | push ts _ h => exact hc.push hw fun k _ => Nat.le_of_eq (h k)
  | frame g h _ => exact frame_covered hw (fun k => Nat.le_of_eq (h k)) hc
  | alloc v hv =>
    refine Covers.alloc (hc.trade fun k _ => ?_)
    cases v with
    | greenlet g => cases hv
    | _ => simp [Value.tokens]
  | retain r h => exact hc.copy (hR r) (offered hH hw hc h) (hs r)
  | tables a b c h =>
    rename_i v
    intro k hK
    have hk := hc k hK
    have := h k
    simp only [demand] at hk ⊢
    have hsup : { v with handles := a, objects := b, outs := c }.supply k = v.supply k := by
      cases k <;> rfl
    omega
  | @register hand w f hv =>
    have ha : Covers K (.object w.heap.size :: hand) (w.alloc (.failure f)).2 :=
      Covers.alloc (hc.trade fun k _ => by simp [Value.tokens])
    have hv : (w.alloc (.failure f)).2.thread.pending = .vacant := hv
    refine Covers.modifyThread (w := (w.alloc (.failure f)).2) hw ha fun k _ => ?_
    simp only [Thread.tokens, hv, Slot.tokens, Slot.get?, Option.map_some, Option.map_none,
      Option.toList_some, Option.toList_none, List.count_append, List.count_cons, List.count_nil]
    omega
  | take hf =>
    refine hc.modifyThread hw fun k _ => ?_
    simp only [Thread.tokens, hf, Slot.tokens, Slot.get?, Option.map_some, Option.map_none,
      Option.toList_some, Option.toList_none, List.count_append, List.count_cons, List.count_nil]
    omega
  | holdHub h hh =>
    obtain ⟨-, hd, hp⟩ := hc.of_reaches (hH h) hw hh
    exact hc.holdHub hd hp
  | makeHome hv => exact makeHome_covered hR hw hv hs hc
  | create hh hp h => exact create_covered hR hH hw hs hh hp h hc
  | setParent _ hp h => exact setParent_covered hR hH hw hs hp h hc
  | call p _ _ _ h => exact hc.push hw fun k _ => Nat.le_of_eq (h k)
  | collect name d hh =>
    refine hc.push hw fun k _ => ?_
    simp [Task.tokens, List.count_cons]
    omega
  | spawn steps => exact spawn_covered hw steps hc
  | fail p => exact fail_covered hw p hc

theorem covered (e : Effect .full hand w hand' w') (hw : w.Seated)
    (hs : ∀ r, .sole r ∉ hand) (hc : Covered hand w) : Covered hand' w' :=
  e.covers (K := (·.isBacked = true)) (fun _ => rfl) (fun _ => rfl) hw (fun r _ => hs r) hc

end Effect

end Switchyard
