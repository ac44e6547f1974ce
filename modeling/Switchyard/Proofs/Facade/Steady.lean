import Switchyard.Proofs.Facade.Staging
import Switchyard.Proofs.Ownership.Effect

/-!
# Sound worlds

A world is sound if all is in order and each reference and handle is accounted for. Code keeps a
world sound, whatever its mode.
-/

namespace Switchyard

open World

namespace Mode

variable {w : World} {i : Nat} {s : List (Item Task)} {m : Mode}

theorem idle_of_unowned (hs : of s = some m) (hf : Item.Filed w i s)
    (ho : ∀ h, ¬ w.Owned h i) : m = idle := by
  induction s generalizing m with
  | nil => exact (Option.some.inj hs).symm
  | cons x s ih =>
    obtain ⟨m₀, h₀, hi⟩ := of_cons hs
    cases x with
    | base f forced =>
      obtain rfl := ih h₀ hf
      cases forced <;> cases hi
    | task t =>
      obtain rfl := ih h₀ hf.2
      have ht := hf.1
      simp only [step, idle] at hi
      split at hi
      · rename_i r hr
        cases t <;> first | (cases hr; done) | exact absurd ht.1 (ho _)
      · obtain ⟨g, hg, rfl⟩ := Option.map_eq_some_iff.mp hi
        cases t <;>
          simp only [Task.role, Ground.step, Ground.isCalm, if_true, reduceCtorEq,
            Option.some.injEq] at hg <;>
          first
            | (subst hg; rfl)
            | exact absurd ht.1 (ho _)
            | exact absurd ht (ho _)

theorem mem_tokens (hs : of s = some m) :
    (∀ t f, m.ground.turn? = some (t, f) → .object t ∈ Item.tokensOf s ∧
      .fiber f ∈ Item.tokensOf s) ∧
      ∀ r, m.unwinding.victim? = some r → .object r ∈ Item.tokensOf s := by
  induction s generalizing m with
  | nil =>
    obtain rfl := Option.some.inj hs
    exact ⟨fun _ _ h => (by cases h), fun _ h => (by cases h)⟩
  | cons x s ih =>
    obtain ⟨⟨g, u⟩, h₀, hi⟩ := of_cons hs
    obtain ⟨ih₁, ih₂⟩ := ih h₀
    simp only [Item.tokensOf_cons, List.mem_append]
    cases x with
    | base f forced =>
      cases forced with
      | false =>
        cases u <;> cases g <;> simp only [step, reduceCtorEq] at hi
        split at hi <;> cases hi
        subst_vars
        exact ⟨fun t f h => ⟨.inr (ih₁ t f h).1, .inr (ih₁ t f h).2⟩, fun _ h => by cases h⟩
      | true =>
        cases u <;> cases hi
        exact ⟨fun t f h => ⟨.inr (ih₁ t f h).1, .inr (ih₁ t f h).2⟩, fun r h => .inr (ih₂ r h)⟩
    | task t =>
      cases u with
      | none =>
        simp only [step] at hi
        split at hi
        · rename_i r hr
          split at hi <;> cases hi
          refine ⟨fun t f h => ⟨.inr (ih₁ t f h).1, .inr (ih₁ t f h).2⟩, fun r' hr' => .inl ?_⟩
          cases hr'
          cases t <;> cases hr
          simp [Item.tokens, Task.tokens]
        · obtain ⟨g', hg, rfl⟩ := Option.map_eq_some_iff.mp hi
          refine ⟨fun t' f h => ?_, fun _ h => by cases h⟩
          by_cases hsame : g'.turn? = g.turn?
          · exact ⟨.inr (ih₁ t' f (hsame ▸ h)).1, .inr (ih₁ t' f (hsame ▸ h)).2⟩
          · cases g with
            | on r f x =>
              obtain ⟨y, -, rfl⟩ := Option.map_eq_some_iff.mp hg
              exact absurd rfl hsame
            | _ =>
              cases t <;> simp only [Task.role, Ground.step, Ground.isCalm, if_true, reduceCtorEq,
                Bool.false_eq_true, if_false, Option.some.injEq] at hg <;>
              first
                | (subst hg; first
                    | exact absurd rfl hsame
                    | (simp only [Ground.turn?, Option.some.injEq, Prod.mk.injEq] at h
                       obtain ⟨rfl, rfl⟩ := h
                       exact ⟨.inl (by simp [Item.tokens, Task.tokens]),
                         .inl (by simp [Item.tokens, Task.tokens])⟩))
      | bare r =>
        simp only [step] at hi
        split at hi <;> cases hi
        exact ⟨fun t f h => ⟨.inr (ih₁ t f h).1, .inr (ih₁ t f h).2⟩, fun r h => .inr (ih₂ r h)⟩
      | off r f x =>
        obtain ⟨y, -, rfl⟩ := Option.map_eq_some_iff.mp hi
        exact ⟨fun t f h => ⟨.inr (ih₁ t f h).1, .inr (ih₁ t f h).2⟩, fun r' h => .inr (ih₂ r' h)⟩

theorem belongs_of_turn (hs : of s = some m) (hf : Item.Filed w i s) {t : Ref} {f : FiberId}
    (ht : m.ground.turn? = some (t, f)) : ∃ h, w.Owned h i ∧ w.Belongs t h := by
  induction s generalizing m with
  | nil =>
    obtain rfl := Option.some.inj hs
    cases ht
  | cons x s ih =>
    obtain ⟨m₀, h₀, hi⟩ := of_cons hs
    have hf' : Item.Filed w i s := by
      cases x with
      | task => exact hf.2
      | base => exact hf
    by_cases hsame : m₀.ground.turn? = m.ground.turn?
    · exact ih h₀ hf' (hsame.trans ht)
    · cases x with
      | base j forced =>
        rcases of_step_base hi with ⟨-, r, rfl, rfl⟩ | ⟨-, g, r, rfl, rfl⟩ <;> exact absurd rfl hsame
      | task u =>
        have hu := hf.1
        obtain ⟨g, v⟩ := m₀
        cases v with
        | none =>
          simp only [step] at hi
          split at hi
          · split at hi <;> cases hi
            exact absurd rfl hsame
          · obtain ⟨g', hg, rfl⟩ := Option.map_eq_some_iff.mp hi
            cases g with
            | on r j x =>
              obtain ⟨y, -, rfl⟩ := Option.map_eq_some_iff.mp hg
              exact absurd rfl hsame
            | _ =>
              cases u <;> simp only [Task.role, Ground.step, Ground.isCalm, if_true, reduceCtorEq,
                Bool.false_eq_true, if_false, Option.some.injEq] at hg <;>
              first
                | (subst hg; first
                    | exact absurd rfl hsame
                    | (cases ht; exact ⟨_, hu⟩))
        | bare r =>
          simp only [step] at hi
          split at hi <;> cases hi
          exact absurd rfl hsame
        | off r j x =>
          obtain ⟨y, -, rfl⟩ := Option.map_eq_some_iff.mp hi
          exact absurd rfl hsame

end Mode

namespace World

variable {A : Prop} {w w' : World} {x : Option (Mode × Edge)} {m : Mode} {e : Edge}
  {hand hand' : List Token}

theorem fine_fresh {h : HubId} {r : Ref} {t : ThreadId} {i : GreenletId}
    {G : Ref → Option Greenlet} {F : FiberId → Fiber Task}
    (hG : ∀ q g, G q = some g → g.hub = h → q = r ∧ g =
      ⟨i, t, true, h, .running, none, none, none, none⟩) :
    Scene.Fine A h ⟨Hub.core { thread := t, main := r, current := r }, G, F, .idle, .plain⟩ where
  running := rfl
  driving := rfl
  releasing := fun h => absurd rfl h
  released := nofun
  outgoing := fun _ => rfl
  home := fun _ => .inr rfl
  seated := nofun
  off := nofun
  suits q g hq hg := by
    obtain ⟨rfl, rfl⟩ := hG q g hq hg
    constructor <;> simp [Hub.core, Mode.idle, Ground.turn?, Unwinding.victim?, Scene.Awaits]

theorem Staging.makeHome (hs : Staging A (some (.idle, .plain)) w)
    (hv : w.thread.home = .vacant) : Staging A (some (.idle, .plain))
      (w.createHub.2.modifyThread fun t => { t with home := .full w.createHub.1 }) := by
  obtain ⟨hid, id, hq⟩ := createHub_quiet w
  have hl : Later w (w.createHub.2.modifyThread fun t => { t with home := .full w.createHub.1 }) :=
    (Later.createHub w).trans (.of_eq rfl rfl rfl)
  have hw := hs.seated
  have hseat : w.createHub.2.Seated := seated_createHub.mpr hw
  have hmanned : w.createHub.2.Manned := hq.manned (hs.manned.of_eq rfl rfl)
  have hact : w.createHub.2.active = w.active := hq.active
  have hsize : w.createHub.2.threads.size = w.threads.size := hq.size_threads
  have hstk (i : Nat) : w.createHub.2.stackAt i = w.stackAt i := (hq.stackAt i).trans rfl
  have hhomes (i : Nat) : w.createHub.2.homeAt i = w.homeAt i := (Beside.of_quiet hq).homeAt i
  have hhubs : w.createHub.2.hubs = w.hubs.push
      { thread := w.active, main := w.heap.size, current := w.heap.size } := hq.hubs
  have hobj (r : Ref) : w.createHub.2.object? r =
      if r = w.heap.size then some ⟨2, .greenlet (w.newMain id)⟩ else w.object? r := by
    rw [hq.object?]
    change ((w.alloc _).2.retain w.heap.size).object? r = _
    rw [World.retain, object?_modifyObject, object?_alloc]
    split
    · rename_i he
      simp [← he]
    · rw [if_neg fun he => ‹¬ _› he.symm, if_neg fun he => ‹¬ _› he.symm]
  have hfib : w.createHub.2.fibers = w.fibers := hq.fibers
  have hnam : w.createHub.2.named = w.named := hq.named
  rw [hid]
  rw [hid] at hl
  generalize w.createHub.2 = v at hl hseat hmanned hact hsize hstk hhomes hhubs hobj hfib hnam
  have hst (i : Nat) : (v.modifyThread fun t => { t with home := .full w.hubs.size }).stackAt i =
      w.stackAt i := by
    rw [stackAt_modifyThread hseat, stack_eq_stackAt, hstk]
    split
    · rename_i he
      rw [he]
    · exact hstk i
  have hhome (i : Nat) : (v.modifyThread fun t => { t with home := .full w.hubs.size }).homeAt i =
      if i = w.active - 1 then .full w.hubs.size else w.homeAt i := by
    rw [← hhomes, ← hact]
    simp only [World.homeAt, World.modifyThread, Array.getElem?_modify]
    split
    · rename_i he
      rw [← he, if_pos rfl, hseat.getElem?]
      rfl
    · rw [if_neg fun he => ‹¬ _› he.symm]
  have hhub (k : HubId) (hk : k < w.hubs.size) : v.hub k = w.hub k := by
    rw [World.hub, hhubs, Array.getElem?_push, if_neg (Nat.ne_of_lt hk), World.hub]
  have hnew : v.hub w.hubs.size =
      { thread := w.active, main := w.heap.size, current := w.heap.size } := by
    rw [World.hub, hhubs]
    simp
  have hfd : v.fiberD = w.fiberD := by
    funext f
    rw [fiberD_eq, hfib, fiberD_eq]
  generalize hu : (v.modifyThread fun t => { t with home := .full w.hubs.size }) = u at *
  have huh : u.hubs = v.hubs := by rw [← hu]; rfl
  have huhub (k : HubId) : u.hub k = v.hub k := by rw [World.hub, huh, World.hub]
  have huo (r : Ref) : u.object? r = v.object? r := by rw [← hu]; rfl
  have hufd : u.fiberD = w.fiberD := by rw [← hfd, ← hu]; rfl
  have hua : u.active = w.active := by rw [← hact, ← hu]; rfl
  have hlt (k : HubId) (hk : k < u.hubs.size) : k = w.hubs.size ∨ k < w.hubs.size := by
    rw [huh, hhubs, Array.size_push] at hk
    exact (Nat.lt_succ_iff_lt_or_eq.mp hk).symm
  have hold {r : Ref} {n : Nat} {g : Greenlet} (ho : u.object? r = some ⟨n, .greenlet g⟩) :
      (r = w.heap.size ∧ n = 2 ∧ g = w.newMain id) ∨
        w.object? r = some ⟨n, .greenlet g⟩ ∧ r < w.heap.size := by
    rw [huo, hobj] at ho
    split at ho
    · cases ho
      exact .inl ⟨‹_›, rfl, rfl⟩
    · exact .inr ⟨ho, lt_size_of_object? ho⟩
  have holdg {r : Ref} {g : Greenlet} {p : Pinned FiberId} (hg : u.greenlet? r = some g)
      (hp : g.fiber = some p) : w.greenlet? r = some g := by
    obtain ⟨n, ho⟩ := greenlet?_eq_some_iff.mp hg
    rcases hold ho with ⟨-, -, rfl⟩ | ⟨ho, -⟩
    · cases hp
    · exact greenlet?_eq_some_iff.mpr ⟨n, ho⟩
  have hbel : u.Belongs w.heap.size w.hubs.size := by
    have ho : u.object? w.heap.size = some ⟨2, .greenlet (w.newMain id)⟩ := by
      rw [huo, hobj, if_pos rfl]
    exact ⟨lt_size_of_object? ho, fun o ho' => ⟨w.newMain id, by rw [ho] at ho'; cases ho'; rfl, rfl⟩⟩
  have hother {k : HubId} (hk : k < w.hubs.size) : (w.hub k).thread ≠ w.active := fun ht =>
    hs.vacant k hk (by rw [ht, homeAt_active hw, hv])
  constructor
  · rw [← hu]
    exact hmanned.modifyThread fun _ => rfl
  · rw [← hs.named, ← hnam, ← hu]
    rfl
  · intro i hi
    rw [hst]
    rw [hua] at hi
    exact ⟨(hs.elsewhere i hi).1, (hs.elsewhere i hi).2.later hl⟩
  · intro r n g ho
    rcases hold ho with ⟨rfl, rfl, rfl⟩ | ⟨ho, -⟩
    · constructor <;> simp [newMain, huhub, hnew, huh, hhubs]
    · have hd := hs.greenlets r n g ho
      have hk : u.hub g.hub = w.hub g.hub := by rw [huhub, hhub _ hd.hub]
      constructor
      · rw [huh, hhubs, Array.size_push]
        exact Nat.lt_succ_of_lt hd.hub
      · rw [hk]; exact hd.thread
      · exact fun p hp => (hd.parent p hp).later hl
      · exact hd.main
      · exact hd.spent
      · exact hd.buried
      · rw [hk]; exact hd.shut
      · rw [hk]; exact hd.ended
      · rw [hk]; exact hd.listed
      · intro p hp
        obtain ⟨h₁, h₂⟩ := hd.saved p hp
        rw [hufd, hk]
        exact ⟨(hl.fiberD h₁).1, h₂.later hl⟩
  · exact fun r q g k p p' hr hq hp hp' => hs.pins r q g k p p' (holdg hr hp) (holdg hq hp') hp hp'
  · intro f hf ho
    have hf : f < w.fibers.size := by rwa [← hu, World.modifyThread, hfib] at hf
    rw [hufd] at ho
    obtain ⟨r, g, p, hr, hp⟩ := hs.held f hf ho
    obtain ⟨n, ho⟩ := greenlet?_eq_some_iff.mp hr
    refine ⟨r, g, p, greenlet?_eq_some_iff.mpr ⟨n, ?_⟩, hp⟩
    rw [huo, hobj, if_neg (Nat.ne_of_lt (lt_size_of_object? ho)), ho]
  · intro k hk
    rw [huhub]
    rcases hlt k hk with rfl | hk
    · rw [hnew]
      refine ⟨⟨hw.1, ?_⟩, hbel, hbel, (by simp), by simp, by simp, (by simp)⟩
      rw [← hu]
      simpa [World.modifyThread, hsize] using hw.2
    · rw [hhub k hk]
      refine (hs.hubs k hk).later hl ?_
      rw [← hu]
      simpa [World.modifyThread] using hsize
  · intro k j hk hj ht
    rw [huhub, huhub] at ht
    rcases hlt k hk with rfl | hk <;> rcases hlt j hj with rfl | hj
    · rfl
    · rw [hnew, hhub j hj] at ht
      exact absurd ht.symm (hother hj)
    · rw [hnew, hhub k hk] at ht
      exact absurd ht (hother hk)
    · rw [hhub k hk, hhub j hj] at ht
      exact hs.unique k j hk hj ht
  · intro i h hi
    rw [hhome] at hi
    split at hi
    · rename_i he
      cases hi
      subst he
      refine ⟨by rw [huh, hhubs]; simp, ?_⟩
      rw [huhub, hnew]
      exact (Nat.sub_add_cancel hw.1).symm
    · exact (hs.homes i h hi).later hl
  · intro k hk
    rw [huhub, hhome]
    split
    · simp
    · rcases hlt k hk with rfl | hk
      · rw [hnew] at *
        exact absurd rfl ‹_›
      · rw [hhub k hk]
        exact hs.vacant k hk
  · intro k hk m' e hsh
    unfold Shows at hsh
    rw [huhub, hua, hst] at hsh
    rcases hlt k hk with rfl | hk
    · rw [hnew, if_pos rfl] at hsh
      cases hsh
      refine ⟨fun _ => rfl, fun _ => .inl ?_, fun _ => ?_⟩
      · rw [huhub, hnew, hhome, if_pos rfl]
      · rw [scene, huhub, hnew]
        refine fine_fresh (r := w.heap.size) (i := id) fun q g hq hg => ?_
        obtain ⟨n, -, ho⟩ := living?_eq_some_iff.mp hq
        rcases hold ho with ⟨rfl, -, rfl⟩ | ⟨ho, -⟩
        · exact ⟨rfl, rfl⟩
        · exact absurd hg (Nat.ne_of_lt (hs.greenlets q n g ho).hub)
    · rw [hhub k hk] at hsh
      have hst' := hs.staged k hk m' e hsh
      have hkk : u.hub k = w.hub k := by rw [huhub, hhub k hk]
      constructor
      · rw [hkk]; exact hst'.shut
      · rw [hkk, hhome]
        intro hc
        rw [if_neg (hs.place_ne hk (hother hk))]
        exact hst'.home hc
      · rw [hkk]
        refine fun hc => (hst'.fine hc).alike (congrArg Hub.core hkk) rfl (.inr rfl) ?_ ?_ ?_
        · intro r g hr hg
          obtain ⟨n, hn, ho⟩ := living?_eq_some_iff.mp hr
          rcases hold ho with ⟨-, -, rfl⟩ | ⟨ho, -⟩
          · exact absurd hg (Nat.ne_of_gt hk)
          · exact ⟨g, living?_eq_some_iff.mpr ⟨n, hn, ho⟩, .refl g⟩
        · intro r g p _ _ _
          simp only [scene, hufd]
          exact .refl _
        · intro f hf
          simpa only [scene, hufd] using hf

def bear (g : Greenlet) (w : World) : World :=
  (w.alloc (.greenlet g)).2.modifyHub g.hub fun s => { s with nodes := w.heap.size :: s.nodes }

theorem later_bear (g : Greenlet) : Later w (w.bear g) :=
  (Later.alloc _).trans (.modifyHub' _ fun _ => ⟨rfl, rfl, rfl⟩)

theorem hub_bear {g : Greenlet} (k : HubId) : ((w.bear g).hub k).core = (w.hub k).core ∧
    ((w.bear g).hub k).deferred ++ ((w.bear g).hub k).foreign =
      (w.hub k).deferred ++ (w.hub k).foreign ∧
    ((w.bear g).hub k).disposed = (w.hub k).disposed := by
  simp only [World.bear, World.hub, World.modifyHub, World.alloc, Array.getElem?_modify]
  split <;> cases w.hubs[k]? <;> exact ⟨rfl, rfl, rfl⟩

theorem nodes_bear {g : Greenlet} (hg : g.hub < w.hubs.size) (k : HubId) (r : Ref) :
    r ∈ ((w.bear g).hub k).nodes ↔ k = g.hub ∧ r = w.heap.size ∨ r ∈ (w.hub k).nodes := by
  simp only [World.bear, World.hub, World.modifyHub, World.alloc, Array.getElem?_modify]
  split
  · subst_vars
    simp [Array.getElem?_eq_getElem hg]
  · rename_i hk
    simp [Ne.symm hk]

theorem Staging.bear (hs : Staging A x w) {g : Greenlet} (hlt : g.hub < w.hubs.size)
    (hd : (w.bear g).Decent w.heap.size 1 g)
    (hg : g.isMain = false ∧ g.state = .unstarted ∧ g.run ≠ none ∧ g.fiber = none ∧ g.inbox = none)
    (hx : ∀ m e, w.Shows x g.hub m e → (∀ f, m.ground.turn? ≠ some (w.heap.size, f)) ∧
      m.unwinding.victim? ≠ some w.heap.size) : Staging A x (w.bear g) := by
  obtain ⟨hmain, hstate, hrun, hfiber, hinbox⟩ := hg
  have hl : Later w (w.bear g) := later_bear g
  have hob : ∀ r, (w.bear g).object? r =
      if r = w.heap.size then some ⟨1, .greenlet g⟩ else w.object? r := object?_alloc _
  have hcore := hub_bear (w := w) (g := g)
  have hnodes := nodes_bear (w := w) hlt
  have hfib : (w.bear g).fiberD = w.fiberD := rfl
  have hb : Beside w (w.bear g) := .of_threads rfl rfl rfl
  have hhs : (w.bear g).hubs.size = w.hubs.size := by simp [World.bear, World.modifyHub, World.alloc]
  have hfs : (w.bear g).fibers = w.fibers := rfl
  have hbel : (w.bear g).Belongs w.heap.size g.hub := by
    refine ⟨by simp [World.bear, World.modifyHub, World.alloc], fun o ho => ⟨g, ?_, rfl⟩⟩
    rw [hob, if_pos rfl] at ho
    cases ho
    rfl
  generalize w.bear g = u at *
  have hth (k : HubId) : (u.hub k).thread = (w.hub k).thread := congrArg Core.thread (hcore k).1
  have hcl (k : HubId) : (u.hub k).closed = (w.hub k).closed := congrArg Core.closed (hcore k).1
  have hold {r : Ref} {n : Nat} {k : Greenlet} (ho : u.object? r = some ⟨n, .greenlet k⟩) :
      (r = w.heap.size ∧ k = g ∧ n = 1) ∨ w.object? r = some ⟨n, .greenlet k⟩ := by
    rw [hob] at ho
    split at ho
    · cases ho
      exact .inl ⟨‹_›, rfl, rfl⟩
    · exact .inr ho
  have holdg {r : Ref} {k : Greenlet} {p : Pinned FiberId} (hr : u.greenlet? r = some k)
      (hp : k.fiber = some p) : w.greenlet? r = some k := by
    obtain ⟨n, ho⟩ := greenlet?_eq_some_iff.mp hr
    rcases hold ho with ⟨-, rfl, -⟩ | ho
    · rw [hfiber] at hp; cases hp
    · exact greenlet?_eq_some_iff.mpr ⟨n, ho⟩
  constructor
  · exact hb.manned hs.manned
  · exact hb.named.trans hs.named
  · intro i hi
    rw [hb.active] at hi
    rw [hb.stackAt i hi]
    exact ⟨(hs.elsewhere i hi).1, (hs.elsewhere i hi).2.later hl⟩
  · intro r n k ho
    rcases hold ho with ⟨rfl, rfl, rfl⟩ | ho
    · exact hd
    · have hdec := hs.greenlets r n k ho
      refine hdec.lists hl (hcl _) (fun hr => (hnodes _ _).mpr (.inr hr)) id hdec.buried
        fun p hp => ?_
      rw [hfib]
      exact (hdec.saved p hp).2.later hl
  · exact fun r q k k' p p' hr hq hp hp' =>
      hs.pins r q k k' p p' (holdg hr hp) (holdg hq hp') hp hp'
  · intro f hf ho
    rw [hfs] at hf
    rw [hfib] at ho
    obtain ⟨r, k, p, hr, hp⟩ := hs.held f hf ho
    obtain ⟨n, ho⟩ := greenlet?_eq_some_iff.mp hr
    refine ⟨r, k, p, greenlet?_eq_some_iff.mpr ⟨n, ?_⟩, hp⟩
    rw [hob, if_neg (Nat.ne_of_lt (lt_size_of_object? ho)), ho]
  · intro k hk
    rw [hhs] at hk
    have ho := (hs.hubs k hk).later hl hb.size
    obtain ⟨hkc, hkq, hkd⟩ := hcore k
    refine ⟨?_, ?_, ?_, ?_, ?_, fun r hr => ?_, ?_⟩
    · rw [hth]; exact ho.thread
    · rw [show (u.hub k).main = _ from congrArg Core.main hkc]; exact ho.main
    · rw [show (u.hub k).current = _ from congrArg Core.current hkc]; exact ho.current
    · rw [show (u.hub k).outgoing = _ from congrArg Core.outgoing hkc]; exact ho.posted
    · rw [hkq]; exact ho.queued
    · rcases (hnodes k r).mp hr with ⟨rfl, rfl⟩ | hr
      · exact hbel
      · exact ho.nodes r hr
    · rw [hkd, hcl]; exact ho.disposed
  · intro h k hh hk
    rw [hhs] at hh hk
    rw [hth, hth]
    exact hs.unique h k hh hk
  · intro i h hi
    rw [hb.homeAt] at hi
    exact (hs.homes i h hi).later hl
  · intro h hh
    rw [hhs] at hh
    rw [hth, hb.homeAt]
    exact hs.vacant h hh
  · intro h hh m e hsh
    rw [hhs] at hh
    have hsh := hs.shows_of hb hh (hth h) hsh
    have hst := hs.staged h hh m e hsh
    constructor
    · rw [hcl]; exact hst.shut
    · rw [hcl, hth, hb.homeAt]; exact hst.home
    · rw [hcl]
      intro hc
      have hf := hst.fine hc
      have hord := hs.hubs h hh
      refine ⟨by rw [scene, (hcore h).1]; exact hf.running, by rw [scene, (hcore h).1]; exact hf.driving,
        by rw [scene, (hcore h).1]; exact hf.releasing, by rw [scene, (hcore h).1]; exact hf.released,
        by rw [scene, (hcore h).1]; exact hf.outgoing,
        by rw [scene, (hcore h).1]; exact hf.home, by rw [scene, (hcore h).1]; exact hf.seated,
        by rw [scene, hfib]; exact hf.off, fun r k hr hk => ?_⟩
      obtain ⟨n, hn, ho⟩ := living?_eq_some_iff.mp hr
      rcases hold ho with ⟨rfl, rfl, -⟩ | ho
      · have hne (q : Ref) (hq : w.Belongs q h) : w.heap.size ≠ q := Nat.ne_of_gt hq.1
        have hturn := hx m e (hk ▸ hsh)
        have hturn' (f : FiberId) (hf : u.scene h m e |>.Awaits w.heap.size f) : False :=
          hturn.1 f hf.turn
        constructor <;> simp only [scene, (hcore h).1, hmain, hstate, hfiber, hinbox] <;>
          first
            | exact ⟨(by simp), fun he => absurd he (hne _ hord.main)⟩
            | exact fun he => absurd he (hne _ hord.current)
            | exact fun f hf => absurd hf (hturn.1 f)
            | exact fun hv => absurd hv hturn.2
            | exact fun _ hr => absurd hr hrun
            | exact fun f hf => (hturn' f hf).elim
            | (intro f hf; refine absurd ?_ (hturn.1 f)
               rcases hf with hf | ⟨hf, -⟩ <;> simp [hf, Ground.turn?])
            | simp
      · have hsu := hf.suits r k (living?_eq_some_iff.mpr ⟨n, hn, ho⟩) hk
        simpa only [scene, (hcore h).1, hfib] using
          (⟨hsu.main, hsu.stackless, hsu.current, hsu.running, hsu.dead, hsu.run, hsu.bare,
            hsu.entering, hsu.turn, hsu.fiber, hsu.victim, hsu.inbox, hsu.filled, hsu.posted⟩ :
            Scene.Suits A ⟨(w.hub h).core, u.living?, w.fiberD, m, e⟩ r k)

/-- All is in order where the machine stands. -/
structure Sound (A : Prop) (w : World) : Prop where
  staging : ∃ m, Mode.of w.thread.stack = some m ∧
    Staging A (some (m, Item.edge w.thread.stack)) w
  covered : Covered [] w
  filed : Item.Filed w (w.active - 1) w.thread.stack

/-- All is in order where the active thread runs code at `m`, with `hand` to spend. -/
structure Steady (A : Prop) (hand : List Token) (m : Mode) (w : World) : Prop where
  staging : Staging A (some (m, .plain)) w
  covered : Covered hand w
  mode : Mode.of w.thread.stack = some m
  filed : Item.Filed w (w.active - 1) w.thread.stack

theorem Covered.offered (hc : Covered hand w) (hw : w.Seated) {r : Ref} (hr : w.Offers hand r) :
    0 < w.count r := by
  rcases Effect.offered (K := (·.isBacked = true)) (fun _ => rfl) hw hc hr with h | h
  · have hd := hc (.object r) rfl
    rw [demand_object, supply_object] at hd
    omega
  · obtain ⟨o, ho, hp⟩ := hc.object?_of_mem h
    rwa [count_of_some ho]

namespace Staging

theorem belongs (hs : Staging A x w) {r : Ref} {h : HubId} (hh : h < w.hubs.size)
    (ht : (w.greenlet r).thread = (w.hub h).thread) : w.Belongs r h := by
  have hg := greenlet?_of_thread (w := w) (r := r)
    (ht ▸ Nat.pos_iff_ne_zero.mp (hs.hubs h hh).thread.1)
  obtain ⟨n, -, hd⟩ := hs.decent hg
  have := belongs_of_greenlet? hg
  rwa [hs.unique _ _ hd.hub hh (hd.thread.symm.trans ht)] at this

theorem exists_of_mode (hc : Covered hand w) {i : Nat}
    (hm : Mode.of (w.stackAt i) = some m) :
    (∀ t f, m.ground.turn? = some (t, f) → 0 < w.count t) ∧
      ∀ r, m.unwinding.victim? = some r → 0 < w.count r := by
  have hcount {r : Ref} (hr : .object r ∈ Item.tokensOf (w.stackAt i)) : 0 < w.count r := by
    unfold World.stackAt at hr
    cases ht : w.threads[i]? with
    | none => simp [ht] at hr
    | some t =>
      simp only [ht, Option.map_some, Option.getD_some] at hr
      have hd := Covered.demand_of_thread ht (k := .object r) (by simp [Thread.tokens, hr])
      have := hc (.object r) rfl
      rw [supply_object] at this
      omega
  obtain ⟨h₁, h₂⟩ := Mode.mem_tokens hm
  exact ⟨fun t f h => hcount (h₁ t f h).1, fun r h => hcount (h₂ r h)⟩

theorem exempt (hs : Staging A (some (m, e)) w) : Staging A none w ∧
    ∀ h < w.hubs.size, (w.hub h).thread = w.active → w.Staged A h m e := by
  refine ⟨⟨hs.manned, hs.named, hs.elsewhere, hs.greenlets, hs.pins, hs.held, hs.hubs, hs.unique,
    hs.homes, hs.vacant, fun h hh m' e' hsh => hs.staged h hh m' e' ?_⟩, fun h hh ht =>
    hs.staged h hh m e (by rw [Shows, if_pos ht])⟩
  unfold Shows at hsh ⊢
  split
  · rw [if_pos ‹_›] at hsh
    cases hsh
  · rwa [if_neg ‹_›] at hsh

theorem reinstate (hs : Staging A none w)
    (ho : ∀ h < w.hubs.size, (w.hub h).thread = w.active → w.Staged A h m e) :
    Staging A (some (m, e)) w := by
  refine ⟨hs.manned, hs.named, hs.elsewhere, hs.greenlets, hs.pins, hs.held, hs.hubs, hs.unique,
    hs.homes, hs.vacant, fun h hh m' e' hsh => ?_⟩
  unfold Shows at hsh
  split at hsh
  · cases hsh
    exact ho h hh ‹_›
  · exact hs.staged h hh m' e' (by rw [Shows, if_neg ‹_›]; exact hsh)

theorem seat (hs : Staging A (some (m, e)) w) {h : HubId} (ho : w.Owned h (w.active - 1)) {t : Ref}
    {f : FiberId} (hb : w.Belongs t h) (hpos : 0 < w.count t)
    (hturn : m.ground.turn? = some (t, f)) : (w.hub h).closed = false ∧
      (w.scene h m e).Fine A h ∧ ∃ g, w.living? t = some g ∧ g.hub = h ∧
        g.fiber = some ⟨w.active, f⟩ ∧ (w.scene h m e).Suits A t g := by
  have hact : (w.hub h).thread = w.active := ho.2.trans (Nat.sub_add_cancel hs.seated.1)
  have hst := hs.staged h ho.1 m e (by rw [Shows, if_pos hact])
  have hopen : (w.hub h).closed = false := by
    by_contra hc
    rw [hst.shut (by simpa using hc)] at hturn
    cases hturn
  obtain ⟨o, hob⟩ := object?_of_count hpos
  obtain ⟨g, hv, hg⟩ := hb.2 o hob
  have hliv : w.living? t = some g := living?_eq_some_iff.mpr ⟨o.count, by
    rwa [count_of_some hob] at hpos, by rw [hob, ← hv]⟩
  have hsu := (hst.fine hopen).suits t g hliv hg
  refine ⟨hopen, hst.fine hopen, g, hliv, hg, ?_, hsu⟩
  rw [(hsu.turn f hturn).1]
  exact congrArg (fun x => some (Pinned.mk x f)) hact

theorem shift {m' : Mode} {e' : Edge} (hs : Staging A (some (m, e)) w) (hs' : Staging A none w')
    (hb : Beside w w') (hsize : w'.hubs.size = w.hubs.size) {h : HubId}
    (ho : w.Owned h (w.active - 1)) (ht : (w'.hub h).thread = (w.hub h).thread)
    (hcl : (w'.hub h).closed = (w.hub h).closed) (he : ∀ k, e ≠ .closing k)
    (hm : (w.hub h).closed = true → m = .idle → m' = .idle)
    (hf : (w.hub h).closed = false → (w.scene h m e).Fine A h → (w'.scene h m' e').Fine A h) :
    Staging A (some (m', e')) w' := by
  have hact : (w.hub h).thread = w.active := ho.2.trans (Nat.sub_add_cancel hs.seated.1)
  have hst := hs.staged h ho.1 m e (by rw [Shows, if_pos hact])
  refine hs'.reinstate fun k hk hkt => ?_
  obtain rfl : k = h := hs'.unique k h hk (by rw [hsize]; exact ho.1)
    (by rw [hkt, ht, hact, hb.active])
  refine ⟨fun hc => ?_, fun hc => ?_, fun hc => ?_⟩ <;> rw [hcl] at hc
  · exact hm hc (hst.shut hc)
  · rw [ht, hb.homeAt]
    exact .inl ((hst.home hc).resolve_right (he k))
  · exact hf hc (hst.fine hc)

theorem edge (hs : Staging A (some (m, .plain)) w) (e : Edge) : Staging A (some (m, e)) w := by
  refine ⟨hs.manned, hs.named, hs.elsewhere, hs.greenlets, hs.pins, hs.held, hs.hubs, hs.unique,
    hs.homes, hs.vacant, fun h hh m' e' hsh => ?_⟩
  by_cases ht : (w.hub h).thread = w.active
  · unfold Shows at hsh
    rw [if_pos ht] at hsh
    cases hsh
    have hst := hs.staged h hh m .plain (by rw [Shows, if_pos ht])
    exact ⟨hst.shut, fun hc => .inl ((hst.home hc).resolve_right (by simp)), fun hc =>
      (hst.fine hc).alike rfl rfl (.inl rfl) (fun r g hr _ => ⟨g, hr, .refl g⟩)
        (fun _ _ _ _ _ _ => .refl _) fun _ h => h⟩
  · refine hs.staged h hh m' e' ?_
    rw [Shows, if_neg ht] at hsh ⊢
    exact hsh

theorem shows_iff (hm : Mode.of w.thread.stack = some m) {h : HubId} {m' : Mode} {e : Edge} :
    w.Shows (some (m, Item.edge w.thread.stack)) h m' e ↔
      Mode.of (w.stackAt ((w.hub h).thread - 1)) = some m' ∧
        e = Item.edge (w.stackAt ((w.hub h).thread - 1)) := by
  unfold Shows
  split
  · rename_i ht
    rw [ht, ← stack_eq_stackAt, hm]
    constructor
    · rintro ⟨⟩
      exact ⟨rfl, rfl⟩
    · rintro ⟨⟨⟩, rfl⟩
      rfl
  · rfl

theorem turn (hs : Staging A (some (m, Item.edge w.thread.stack)) w)
    (hm : Mode.of w.thread.stack = some m) (hf : Item.Filed w (w.active - 1) w.thread.stack)
    {i : ThreadId} (hi : 0 < i) (hn : i ≤ w.threads.size) :
    ∃ m', Mode.of (w.stackAt (i - 1)) = some m' ∧ Item.Filed w (i - 1) (w.stackAt (i - 1)) ∧
      Staging A (some (m', Item.edge (w.stackAt (i - 1)))) { w with active := i } := by
  have hst (j : Nat) : (∃ m, Mode.of (w.stackAt j) = some m) ∧ Item.Filed w j (w.stackAt j) := by
    by_cases hj : j = w.active - 1
    · subst hj
      rw [← stack_eq_stackAt]
      exact ⟨⟨m, hm⟩, hf⟩
    · exact hs.elsewhere j hj
  have hl : Later w { w with active := i } := .of_eq rfl rfl rfl
  obtain ⟨⟨m', hm'⟩, hf'⟩ := hst (i - 1)
  refine ⟨m', hm', hf', ⟨⟨hi, hn⟩, hs.manned.parents⟩, hs.named,
    fun j _ => ⟨(hst j).1, (hst j).2.later hl⟩, fun r n g ho => ?_, hs.pins, hs.held,
    fun h hh => (hs.hubs h hh).later hl rfl, hs.unique, fun j h hj => (hs.homes j h hj).later hl,
    hs.vacant, fun h hh m₁ e₁ hsh => ?_⟩
  · have hd := hs.greenlets r n g ho
    exact hd.later hl rfl id hd.buried fun p hp => (hd.saved p hp).2.later hl
  · have hm₁ : Mode.of ({ w with active := i } : World).thread.stack = some m' := by
      rw [stack_eq_stackAt]
      exact hm'
    have he : Item.edge (w.stackAt (i - 1)) =
        Item.edge ({ w with active := i } : World).thread.stack := by
      rw [stack_eq_stackAt]
      rfl
    rw [he] at hsh
    have hst := hs.staged h hh m₁ e₁ ((shows_iff hm).mpr ((shows_iff hm₁).mp hsh))
    exact ⟨hst.shut, hst.home, hst.fine⟩

theorem hire (hs : Staging A x w) {l : List Task} {t : Thread}
    (ht : t.stack = l.map .task ∧ t.home = .vacant)
    (hp : 0 < t.parent ∧ t.parent ≤ w.threads.size) (hm : Mode.of (l.map .task) = some .idle)
    (hf : Item.Filed w w.threads.size (l.map .task)) :
    Staging A x { w with threads := w.threads.push t } := by
  have hl : Later w { w with threads := w.threads.push t } := .of_eq rfl rfl rfl
  have hsz := hs.seated.2
  have hstk (i : Nat) : ({ w with threads := w.threads.push t } : World).stackAt i =
      if i = w.threads.size then l.map .task else w.stackAt i := by
    simp only [World.stackAt, Array.getElem?_push]
    split
    · simp [ht.1]
    · rfl
  have hhome (i : Nat) : ({ w with threads := w.threads.push t } : World).homeAt i =
      if i = w.threads.size then .vacant else w.homeAt i := by
    simp only [World.homeAt, Array.getElem?_push]
    split
    · simp [ht.2]
    · rfl
  have hne {h : HubId} (hh : h < w.hubs.size) : (w.hub h).thread - 1 ≠ w.threads.size := by
    have h₁ : 0 < (w.hub h).thread := (hs.hubs h hh).thread.1
    have h₂ : (w.hub h).thread ≤ w.threads.size := (hs.hubs h hh).thread.2
    exact Nat.ne_of_lt (Nat.lt_of_lt_of_le (Nat.sub_lt h₁ Nat.one_pos) h₂)
  constructor
  · refine ⟨⟨hs.seated.1, by simp only [Array.size_push]; exact Nat.le_succ_of_le hsz⟩,
      fun i t' hi h₀ => ?_⟩
    simp only [Array.getElem?_push] at hi
    simp only [Array.size_push]
    split at hi
    · cases hi
      exact ⟨hp.1, Nat.le_succ_of_le hp.2⟩
    · exact ⟨(hs.manned.parents i t' hi h₀).1, Nat.le_succ_of_le (hs.manned.parents i t' hi h₀).2⟩
  · exact hs.named
  · intro i hi
    rw [hstk]
    split
    · rename_i he
      subst he
      exact ⟨⟨_, hm⟩, hf.later hl⟩
    · exact ⟨(hs.elsewhere i hi).1, (hs.elsewhere i hi).2.later hl⟩
  · intro r n g ho
    have hd := hs.greenlets r n g ho
    exact hd.later hl rfl id hd.buried fun p hp => (hd.saved p hp).2.later hl
  · exact hs.pins
  · exact hs.held
  · intro h hh
    have ho := hs.hubs h hh
    exact ⟨⟨ho.thread.1, by simp only [Array.size_push]; exact Nat.le_succ_of_le ho.thread.2⟩,
      ho.main.later hl, ho.current.later hl, fun u p hp => (ho.posted u p hp).later hl,
      fun r hr => (ho.queued r hr).later hl, fun r hr => (ho.nodes r hr).later hl, ho.disposed⟩
  · exact hs.unique
  · intro i h hi
    rw [hhome] at hi
    split at hi
    · cases hi
    · exact (hs.homes i h hi).later hl
  · intro h hh
    rw [hhome]
    change (if (w.hub h).thread - 1 = _ then _ else w.homeAt ((w.hub h).thread - 1)) ≠ _
    rw [if_neg (hne hh)]
    exact hs.vacant h hh
  · intro h hh m₁ e₁ hsh
    have hsh₀ : w.Shows x h m₁ e₁ := by
      unfold Shows at hsh ⊢
      simp only [hstk] at hsh
      change if (w.hub h).thread = w.active then _ else
        Mode.of (if (w.hub h).thread - 1 = _ then _ else w.stackAt ((w.hub h).thread - 1)) = _ ∧
        e₁ = Item.edge (if (w.hub h).thread - 1 = _ then _ else
          w.stackAt ((w.hub h).thread - 1)) at hsh
      rwa [if_neg (hne hh)] at hsh
    have hst := hs.staged h hh m₁ e₁ hsh₀
    refine ⟨hst.shut, fun hc => ?_, hst.fine⟩
    rw [hhome]
    change (if (w.hub h).thread - 1 = _ then _ else w.homeAt ((w.hub h).thread - 1)) = _ ∨ _
    rw [if_neg (hne hh)]
    exact hst.home hc

end Staging

namespace Steady

variable {hs : Steady A hand m w}

theorem seated (hs : Steady A hand m w) : w.Seated := hs.staging.seated

theorem same (hs : Steady A hand m w) (hst : Staging A (some (m, .plain)) w')
    (hc : Covered hand' w') (hl : Later w w') (ha : w'.active = w.active)
    (he : w'.thread.stack = w.thread.stack) : Steady A hand' m w' where
  staging := hst
  covered := hc
  mode := by rw [he]; exact hs.mode
  filed := by rw [he, ha]; exact hs.filed.later hl

theorem shows_own (hs : Steady A hand m w) {h : HubId} {m' : Mode} {e : Edge}
    (hsh : w.Shows (some (m, .plain)) h m' e) :
    Mode.of (w.stackAt ((w.hub h).thread - 1)) = some m' := by
  unfold Shows at hsh
  split at hsh
  · rename_i ht
    cases hsh
    rw [ht, ← stack_eq_stackAt]
    exact hs.mode
  · exact hsh.1

theorem owned (hs : Steady A hand m w) {h : HubId} (hh : w.Reaches h) :
    w.Owned h (w.active - 1) ∧ (w.hub h).thread = w.active := by
  have ho := hs.staging.homes (w.active - 1) h
    ((homeAt_active hs.seated).trans (hh.home hs.staging.named))
  refine ⟨ho, ho.2.trans ?_⟩
  exact Nat.sub_add_cancel hs.seated.1

theorem push (hs : Steady A hand m w) {ts : List Task} (hm : m.isOpen = true)
    (ht : ∀ t ∈ ts, t.role = .code ∨ t.role = .fail)
    (hf : Item.Filed w (w.active - 1) (ts.map .task ++ w.thread.stack))
    (hc : Covered hand' (w.push ts)) : Steady A hand' m (w.push ts) := by
  have hst : (w.push ts).thread.stack = ts.map .task ++ w.thread.stack := by
    rw [World.push, thread_modifyThread hs.seated]
  refine ⟨hs.staging.push ts, hc, ?_, ?_⟩
  · rw [hst]
    exact Mode.of_push hm ht hs.mode
  · rw [hst]
    exact hf.later (.of_eq rfl rfl rfl)

theorem pushPlain (hs : Steady A hand m w) {ts : List Task} (hm : m.isOpen = true)
    (ht : ts.all Task.isPlain = true) (hc : Covered hand' (w.push ts)) :
    Steady A hand' m (w.push ts) :=
  hs.push hm (fun t h => .inl (Task.role_of_isPlain (List.all_eq_true.mp ht t h)))
    (hs.filed.pushPlain ht) hc

theorem makeHome (hs : Steady A hand m w) (hv : w.thread.home = .vacant)
    (hc : Covered hand (w.createHub.2.modifyThread fun t =>
      { t with home := .full w.createHub.1 })) :
    Steady A hand m (w.createHub.2.modifyThread fun t =>
      { t with home := .full w.createHub.1 }) := by
  have hm : m = .idle := by
    refine Mode.idle_of_unowned hs.mode hs.filed fun h ho => hs.staging.vacant h ho.1 ?_
    rw [ho.2]
    exact (homeAt_active hs.seated).trans hv
  obtain ⟨-, id, hq⟩ := createHub_quiet w
  have hst : (w.createHub.2.modifyThread fun t => { t with home := .full w.createHub.1 }).thread.stack =
      w.thread.stack := by
    rw [thread_modifyThread (seated_createHub.mpr hs.seated)]
    exact (hq.thread (by exact hs.seated)).1
  subst hm
  exact hs.same (hs.staging.makeHome hv) hc ((Later.createHub w).trans (.of_eq rfl rfl rfl))
    hq.active hst

theorem create {run : RunFn} (hs : Steady A (run.tokens ++ hand) m w) {h : HubId}
    {p : Option Ref} {r : Ref} (hh : w.Reaches h)
    (hp : ∀ q, p = some q → w.Offers (run.tokens ++ hand) q)
    (hn : w.createGreenlet h run p = (.ok r, w')) (hc : Covered (.object r :: hand) w') :
    Steady A (.object r :: hand) m w' := by
  obtain ⟨ho, ht⟩ := hs.owned hh
  obtain ⟨hcl, rfl, hth, id, hq⟩ := createGreenlet_ok hn
  have hoff : w.Offers (run.tokens ++ hand) (p.getD (w.hub h).current) := by
    cases p with
    | none => exact .current hh rfl
    | some q => exact hp q rfl
  have hbel : w.Belongs (p.getD (w.hub h).current) h := by
    cases p with
    | none => exact (hs.staging.hubs h ho.1).current
    | some q => exact hs.staging.belongs ho.1 (hth q rfl)
  generalize p.getD (w.hub h).current = q at hq hoff hbel
  have st₁ := hs.staging.retain (hs.covered.offered hs.seated hoff)
  have hl₁ : Later w (w.retain q) := .retain q
  have hsize : (w.retain q).heap.size = w.heap.size := by
    simp [World.retain, World.modifyObject]
  have hb : Beside w (w.retain q) := .of_threads rfl rfl rfl
  have hmine : h < (w.retain q).hubs.size := ho.1
  have st₂ := st₁.bear (g := w.newGreenlet h run q id) hmine (by
    rw [hsize]
    have hl₂ : Later (w.retain q) ((w.retain q).bear (w.newGreenlet h run q id)) := later_bear _
    constructor
    · exact (hl₂.hub hmine).1
    · exact (hl₂.hub hmine).2.1.symm
    · rintro p ⟨⟩
      exact (hbel.later hl₁).later hl₂
    · exact fun hm => absurd hm (by simp [newGreenlet])
    · exact fun hf => absurd rfl hf
    · simp
    · exact fun _ => rfl
    · intro hc
      have hk : (((w.retain q).bear (w.newGreenlet h run q id)).hub h).closed = (w.hub h).closed :=
        congrArg Core.closed (hub_bear h).1
      rw [show (w.newGreenlet h run q id).hub = h from rfl, hk, hcl] at hc
      cases hc
    · exact fun _ _ _ => (nodes_bear hmine h _).mpr (.inl ⟨rfl, hsize.symm⟩)
    · rintro _ ⟨⟩) ⟨rfl, rfl, by simp [newGreenlet], rfl, rfl⟩ (by
    intro m' e hsh
    obtain ⟨h₁, h₂⟩ := Staging.exists_of_mode hs.covered
      (hs.shows_own (hs.staging.shows_of hb ho.1 rfl hsh))
    have h₀ : w.count w.heap.size = 0 := by simp [World.count, object?_size]
    rw [hsize]
    exact ⟨fun f hf => absurd (h₁ _ _ hf) (by omega), fun hv => absurd (h₂ _ hv) (by omega)⟩)
  have he : (w.retain q).bear (w.newGreenlet h run q id) = ((w.retain q).alloc
      (.greenlet (w.newGreenlet h run q id))).2.modifyHub h fun s =>
        { s with nodes := w.heap.size :: s.nodes } := by
    rw [World.bear, hsize]
    rfl
  rw [he] at st₂
  have hl : Later w w' :=
    .effect (show Effect .full (run.tokens ++ hand) w (.object _ :: hand) w' from .create hh hp hn)
  refine hs.same (st₂.quiet hq) hc hl hq.active ?_
  exact (hq.thread hs.seated).1

theorem setParent (hs : Steady A hand m w) {r p : Ref} {old : Option Ref}
    (hp : w.Offers hand p) (he : w.setParent r p = (.ok old, w')) (hl : Later w w')
    (hc : Covered hand' w') : Steady A hand' m w' := by
  obtain ⟨hre, -, rfl⟩ := setParent_ok he
  have st₁ := hs.staging.retain (hs.covered.offered hs.seated hp)
  have hl₁ : Later w (w.retain p) := .retain p
  have hl₂ : Later (w.retain p) ((w.retain p).modifyGreenlet r fun g => { g with parent := some p }) :=
    .modifyGreenlet r fun _ _ => ⟨rfl, rfl, rfl, rfl, id, id⟩
  refine hs.same (st₁.modifyGreenlet hl₂ fun n g ho => ⟨rfl, ?_, .inl rfl, fun _ =>
    .inr ⟨rfl, rfl, rfl, rfl, rfl, rfl⟩⟩) hc hl rfl rfl
  have hd := st₁.greenlets r n g ho
  have hd₂ := hd.later hl₂ rfl id hd.buried fun q hq => (hd.saved q hq).2.later hl₂
  obtain ⟨n₀, hg⟩ : ∃ n₀, w.object? r = some ⟨n₀, .greenlet g⟩ := by
    rw [World.retain, object?_modifyObject] at ho
    split at ho
    · obtain ⟨⟨n₀, v⟩, ho₀, hv⟩ := Option.map_eq_some_iff.mp ho
      cases hv
      exact ⟨_, ho₀⟩
    · exact ⟨n, ho⟩
  refine ⟨hd₂.hub, hd₂.thread, ?_, fun hm => ?_, hd₂.spent, hd₂.buried, hd₂.shut, hd₂.ended,
    hd₂.listed, hd₂.saved⟩
  swap
  · have hn := (reparent_allowed hre).1
    rw [greenlet_of_some (greenlet?_eq_some_iff.mpr ⟨n₀, hg⟩)] at hn
    rw [hn] at hm
    cases hm
  rintro q ⟨⟩
  have hd₀ := hs.staging.greenlets r n₀ g hg
  refine ((hs.staging.belongs hd₀.hub ?_).later hl₁).later hl₂
  rw [(reparent_allowed hre).2.1, greenlet_of_some (greenlet?_eq_some_iff.mpr ⟨n₀, hg⟩)]
  exact hd₀.thread

theorem stack_fail (hw : w.Seated) (p : Panic) :
    (w.fail p).thread.stack = .task (.fail p) :: w.thread.stack := by
  have hw' : (w.push [.fail p]).Seated := (seated_modifyThread _).mpr hw
  rw [World.fail, thread_modifyThread hw']
  exact congrArg Thread.stack (thread_modifyThread hw _)

theorem spawn (hs : Steady A hand m w) (hm : m.isOpen = true) (steps : List Script.Step)
    (hc : Covered hand (w.spawnStep steps)) : Steady A hand .idle (w.spawnStep steps) := by
  have h₁ := hs.staging.push [.join (w.threads.size + 1)]
  have hstk : (w.push [.join (w.threads.size + 1)]).thread.stack =
      .task (.join (w.threads.size + 1)) :: w.thread.stack := by
    rw [World.push, thread_modifyThread hs.seated]
    rfl
  have hsize : (w.push [.join (w.threads.size + 1)]).threads.size = w.threads.size := by
    simp [World.push, World.modifyThread]
  have hm₁ : Mode.of (.task (.join (w.threads.size + 1)) :: w.thread.stack) = some m :=
    Mode.of_cons_of hs.mode (Mode.step_code hm (.inl rfl))
  have hf₁ : Item.Filed w (w.active - 1) (.task (.join (w.threads.size + 1)) :: w.thread.stack) :=
    ⟨trivial, hs.filed⟩
  have hmode : Mode.of ([Task.steps steps, .frame {}, .rootEnd, .exitThread].map .task) =
      some .idle := rfl
  have h₂ := h₁.hire (l := [.steps steps, .frame {}, .rootEnd, .exitThread])
    (t := { stack := [Task.steps steps, .frame {}, .rootEnd, .exitThread].map .task,
            parent := w.active }) ⟨rfl, rfl⟩
    ⟨hs.seated.1, show w.active ≤ _ by rw [hsize]; exact hs.seated.2⟩ hmode
    ⟨trivial, trivial, trivial, trivial, trivial⟩
  have hact : w.active - 1 ≠ w.threads.size := by
    have h₁ : 0 < w.active := hs.seated.1
    exact Nat.ne_of_lt (Nat.lt_of_lt_of_le (Nat.sub_lt h₁ Nat.one_pos) hs.seated.2)
  have hstk₂ (i : Nat) : ({ w.push [.join (w.threads.size + 1)] with
      threads := (w.push [.join (w.threads.size + 1)]).threads.push
        { stack := [Task.steps steps, .frame {}, .rootEnd, .exitThread].map .task,
          parent := w.active } } : World).stackAt i =
      if i = w.threads.size then [Task.steps steps, .frame {}, .rootEnd, .exitThread].map .task
      else (w.push [.join (w.threads.size + 1)]).stackAt i := by
    simp only [World.stackAt, Array.getElem?_push, hsize]
    split
    · simp
    · rfl
  have hstk₃ : ({ w.push [.join (w.threads.size + 1)] with
      threads := (w.push [.join (w.threads.size + 1)]).threads.push
        { stack := [Task.steps steps, .frame {}, .rootEnd, .exitThread].map .task,
          parent := w.active } } : World).thread.stack =
      .task (.join (w.threads.size + 1)) :: w.thread.stack := by
    rw [stack_eq_stackAt, hstk₂]
    refine (if_neg hact).trans ?_
    rw [← hstk, stack_eq_stackAt]
  obtain ⟨m', hm', hf', h₃⟩ := Staging.turn (m := m) (i := w.threads.size + 1)
    (by rw [hstk₃]; exact h₂) (by rw [hstk₃]; exact hm₁)
    (by rw [hstk₃]; exact hf₁.later (.of_eq rfl rfl rfl)) (Nat.succ_pos _)
    (by simp [hsize])
  rw [Nat.add_sub_cancel, hstk₂, if_pos rfl] at hm' h₃
  obtain rfl : m' = .idle := (Option.some.inj (hmode.symm.trans hm')).symm
  have hfin : (w.spawnStep steps).thread.stack =
      [Task.steps steps, .frame {}, .rootEnd, .exitThread].map .task := by
    rw [stack_eq_stackAt]
    exact (hstk₂ (w.threads.size + 1 - 1)).trans (if_pos rfl)
  refine ⟨h₃, hc, by rw [hfin]; exact hmode, ?_⟩
  rw [hfin]
  exact ⟨trivial, trivial, trivial, trivial, trivial⟩

theorem effect (e : Effect .full hand w hand' w') : ∀ {m}, Steady A hand m w → m.isOpen = true →
    (∀ r, .sole r ∉ hand) → ∃ m', m'.isOpen = true ∧ Steady A hand' m' w' := by
  induction e with
  | trade h =>
    exact fun {m} hs hm _ => ⟨m, hm, hs.staging,
      hs.covered.trade fun k => Nat.le_of_eq (h k), hs.mode, hs.filed⟩
  | trans e e' ih ih' =>
    intro m hs hm h₀
    obtain ⟨m₁, hm₁, hs₁⟩ := ih hs hm h₀
    exact ih' hs₁ hm₁ fun r => e.soleless (h₀ r)
  | quiet h =>
    exact fun {m} hs hm _ => ⟨m, hm, hs.same (hs.staging.quiet h) (hs.covered.quiet h)
      (.of_quiet h) h.active (h.thread hs.seated).1⟩
  | push ts h hc =>
    exact fun {m} hs hm _ =>
      ⟨m, hm, hs.pushPlain hm h (hs.covered.push hs.seated fun k => Nat.le_of_eq (hc k))⟩
  | frame g h hf =>
    intro m hs hm h₀
    have hstk := congrArg Thread.stack (thread_modifyThread (w := _) hs.seated
      fun t => { t with stack := modifyFrameOf g t.stack })
    refine ⟨m, hm, hs.staging.modifyThread fun _ => ⟨rfl, rfl⟩,
      (Effect.frame g h hf).covered hs.seated h₀ hs.covered, ?_, ?_⟩
    · rw [modifyFrame, hstk, Mode.of_modifyFrameOf]
      exact hs.mode
    · rw [modifyFrame, hstk]
      exact (hs.filed.modifyFrameOf g).later (.of_eq rfl rfl rfl)
  | alloc v hv =>
    exact fun {m} hs hm h₀ => ⟨m, hm, hs.same (hs.staging.alloc hv)
      ((Effect.alloc v hv).covered hs.seated h₀ hs.covered) (.alloc v) rfl rfl⟩
  | retain r h =>
    exact fun {m} hs hm h₀ => ⟨m, hm, hs.same
      (hs.staging.retain (hs.covered.offered hs.seated h))
      ((Effect.retain r h).covered hs.seated h₀ hs.covered) (.retain r) rfl rfl⟩
  | tables a b c h =>
    exact fun {m} hs hm h₀ => ⟨m, hm, hs.same
      (hs.staging.congr (.of_threads rfl rfl rfl) rfl rfl rfl)
      ((Effect.tables a b c h).covered hs.seated h₀ hs.covered)
      (.of_eq rfl rfl rfl) rfl rfl⟩
  | @register hand w f hv =>
    intro m hs hm h₀
    have ha := hs.staging.alloc (v := .failure f) rfl
    have e := @Effect.register .full hand w f hv
    exact ⟨m, hm, hs.same (ha.modifyThread fun _ => ⟨rfl, rfl⟩)
      (e.covered hs.seated h₀ hs.covered) (.effect e) rfl
      (by rw [thread_modifyThread ha.seated]; rfl)⟩
  | take hf hl =>
    intro m hs hm h₀
    exact ⟨m, hm, hs.same (hs.staging.modifyThread fun _ => ⟨rfl, rfl⟩)
      ((Effect.take hf hl).covered hs.seated h₀ hs.covered)
      (.of_eq rfl rfl rfl) rfl (by rw [thread_modifyThread hs.seated])⟩
  | holdHub h hh =>
    exact fun {m} hs hm h₀ => ⟨m, hm, hs.same
      (hs.staging.modifyHub (fun _ => ⟨rfl, rfl, rfl⟩) (fun o => { o with })
        (fun _ _ _ _ _ hr => hr) (.inr rfl))
      ((Effect.holdHub h hh).covered hs.seated h₀ hs.covered)
      (.modifyHub' h fun _ => ⟨rfl, rfl, rfl⟩) rfl rfl⟩
  | makeHome hv =>
    exact fun {m} hs hm h₀ => ⟨m, hm, hs.makeHome hv
      ((Effect.makeHome hv).covered hs.seated h₀ hs.covered)⟩
  | create hh hp hn =>
    exact fun {m} hs hm h₀ => ⟨m, hm, hs.create hh hp hn
      ((Effect.create hh hp hn).covered hs.seated h₀ hs.covered)⟩
  | setParent hr hp he hl =>
    exact fun {m} hs hm h₀ => ⟨m, hm, hs.setParent hp he (Later.effect (.setParent hr hp he hl))
      ((Effect.setParent hr hp he hl).covered hs.seated h₀ hs.covered)⟩
  | call p hh ht hu hc =>
    intro m hs hm h₀
    refine ⟨m, hm, hs.push hm (fun t h => ?_) ?_
      ((Effect.call p hh ht hu hc).covered hs.seated h₀ hs.covered)⟩
    · simp only [List.mem_cons, List.not_mem_nil, or_false] at h
      rcases h with rfl | rfl | rfl
      · exact .inl rfl
      · exact .inl rfl
      · exact .inl (Task.role_of_isPlain (Task.isPlain_of_lends hu))
    · exact ⟨⟨(hs.owned hh).1, _, _, rfl, hu, ht⟩, (hs.owned hh).1,
        Item.filed_of_plain (Task.isPlain_of_lends hu), hs.filed⟩
  | collect name d hh =>
    intro m hs hm h₀
    refine ⟨m, hm, hs.push hm (fun t h => ?_) ⟨(hs.owned hh).1, (hs.owned hh).1, trivial, hs.filed⟩
      ((Effect.collect name d hh).covered hs.seated h₀ hs.covered)⟩
    simp only [List.mem_cons, List.not_mem_nil, or_false] at h
    rcases h with rfl | rfl | rfl <;> exact .inl rfl
  | spawn steps =>
    exact fun {m} hs hm h₀ => ⟨.idle, rfl, hs.spawn hm steps
      ((Effect.spawn steps).covered hs.seated h₀ hs.covered)⟩
  | fail p =>
    intro m hs hm h₀
    have hc := (Effect.fail p).covered hs.seated h₀ hs.covered
    refine ⟨m, hm, hs.staging.fail p, hc, ?_, ?_⟩ <;> rw [stack_fail hs.seated]
    · exact Mode.of_cons_of hs.mode (Mode.step_code hm (.inr rfl))
    · exact ⟨trivial, hs.filed.later (.of_eq rfl rfl rfl)⟩

theorem sound (hs : Steady A [] m w) : Sound A w :=
  ⟨⟨m, hs.mode, hs.staging.edge _⟩, hs.covered, hs.filed⟩

end Steady

namespace Sound

theorem seated (hs : Sound A w) : w.Seated := by
  obtain ⟨⟨m, -, h⟩, -, -⟩ := hs
  exact h.seated

theorem of_own (hs : Staging A none w) (hc : Covered [] w) (hm : Mode.of w.thread.stack = some m)
    (hf : Item.Filed w (w.active - 1) w.thread.stack) {h : HubId} (ho : w.Owned h (w.active - 1))
    (hst : w.Staged A h m (Item.edge w.thread.stack)) : Sound A w := by
  refine ⟨⟨m, hm, hs.reinstate fun k hk ht => ?_⟩, hc, hf⟩
  obtain rfl : k = h := hs.unique k h hk ho.1 (by
    rw [ht, ho.2]
    exact (Nat.sub_add_cancel hs.seated.1).symm)
  exact hst

theorem yield (hs : Sound A w) {i : ThreadId} (hi : 0 < i) (hn : i ≤ w.threads.size) :
    Sound A { w with active := i } := by
  obtain ⟨⟨m, hm, h⟩, hc, hf⟩ := hs
  obtain ⟨m', hm', hf', h'⟩ := h.turn hm hf hi hn
  have he : ({ w with active := i } : World).thread.stack = w.stackAt (i - 1) := by
    rw [stack_eq_stackAt]
    rfl
  exact ⟨⟨m', by rw [he]; exact hm', by rw [he]; exact h'⟩, hc,
    by rw [he]; exact hf'.later (.of_eq rfl rfl rfl)⟩

theorem pop (hs : Sound A w) {t : Task} {below : List (Item Task)}
    (ht : w.thread.stack = .task t :: below) : ∃ m₀ m, Mode.of below = some m₀ ∧
      Mode.step (.task t) m₀ = some m ∧
      Staging A (some (m, Item.edge (.task t :: below))) (w.setStack below) ∧
      Covered t.tokens (w.setStack below) ∧
      Item.Filed (w.setStack below) (w.active - 1) below ∧
      t.Filed (w.setStack below) (w.active - 1) below := by
  obtain ⟨⟨m, hm, h⟩, hc, hf⟩ := hs
  have hw := h.seated
  rw [ht] at hm hf h
  obtain ⟨m₀, h₀, hi⟩ := Mode.of_cons hm
  have hl : Later w (w.setStack below) := .of_eq rfl rfl rfl
  have hc' := hc.pop hw ht
  rw [List.append_nil] at hc'
  have hf' := hf.later hl
  exact ⟨m₀, m, h₀, hi, h.setStack below, hc', hf'.2, hf'.1⟩

theorem pop_base (hs : Sound A w) {f : FiberId} {forced : Bool} {below : List (Item Task)}
    (ht : w.thread.stack = .base f forced :: below) : ∃ m₀ m, Mode.of below = some m₀ ∧
      Mode.step (.base f forced) m₀ = some m ∧ Staging A (some (m, .plain)) (w.setStack below) ∧
      Covered [] (w.setStack below) ∧ Item.Filed (w.setStack below) (w.active - 1) below := by
  obtain ⟨⟨m, hm, h⟩, hc, hf⟩ := hs
  have hw := h.seated
  rw [ht] at hm hf h
  obtain ⟨m₀, h₀, hi⟩ := Mode.of_cons hm
  have hl : Later w (w.setStack below) := .of_eq rfl rfl rfl
  have hc' : Covered [] (w.setStack below) := hc.setStack hw fun k => by
    rw [ht, Item.tokensOf_cons]
    simp [Item.tokens]
  exact ⟨m₀, m, h₀, hi, h.setStack below, hc', Item.Filed.later (s := below) hf hl⟩

theorem pop_code (hs : Sound A w) {t : Task} {below : List (Item Task)}
    (ht : w.thread.stack = .task t :: below) (hr : t.role = .code) :
    ∃ m, m.isOpen = true ∧ Steady A t.tokens m (w.setStack below) ∧
      t.Filed (w.setStack below) (w.active - 1) below := by
  obtain ⟨m₀, m, h₀, hi, h, hc, hf, hft⟩ := hs.pop ht
  obtain ⟨rfl, ho⟩ := Mode.of_step_code hi hr
  have he : Item.edge (.task t :: below) = .plain := by
    cases t <;> first | rfl | cases hr
  rw [he] at h
  have hst := stack_setStack hs.seated below
  exact ⟨m, ho, ⟨h, hc, by rw [hst]; exact h₀, by rw [hst]; exact hf⟩, hft⟩

end Sound

end World

end Switchyard
