import Switchyard.Proofs.Beside
import Switchyard.Proofs.Motion.Basic

/-!
# Motions keep what is referred to

Every reference and every share of a hub is covered, tasks find below them what they rely on, and
only a hub that nobody owns is disposed of. This does not depend on where hubs are made: each motion
keeps it.
-/

namespace Switchyard

namespace World

variable {w w' : World} {hand hand' : List Token} {r : Ref} {h : HubId}

/-- The references in `hand` are on their way. -/
structure Kept (hand : List Token) (w : World) : Prop where
  seated : w.Seated
  covers : Covers (·.isCounted = true) hand w
  framing : ∀ i, Item.Framed (w.stackAt i)
  saved : ∀ (f : FiberId) s, w.fibers[f]? = some s → s.phase.Framed
  unowned : ∀ h, (w.hub h).disposed = true → (w.hub h).holders = 0

namespace Kept

theorem framed (hs : Kept hand w) : w.control.Framed where
  stack := by
    change Item.Framed w.thread.stack
    rw [stack_eq_stackAt]
    exact hs.framing _
  saved := hs.saved

/-- The active thread goes on with another stack. -/
theorem update (hs : Kept hand w) (ha : w'.active = w.active)
    (hn : w'.threads.size = w.threads.size)
    (hi : ∀ i, i ≠ w.active - 1 → w'.stackAt i = w.stackAt i)
    (hc : Covers (·.isCounted = true) hand' w') (hstk : Item.Framed w'.thread.stack)
    (hf : ∀ (f : FiberId) s, w'.fibers[f]? = some s → s.phase.Framed)
    (hu : ∀ h, (w'.hub h).disposed = true → (w'.hub h).holders = 0) : Kept hand' w' where
  seated := by
    have := hs.seated
    rwa [Seated, ha, hn]
  covers := hc
  framing i := by
    by_cases he : i = w.active - 1
    · rw [he, ← ha, ← stack_eq_stackAt]
      exact hstk
    · rw [hi i he]
      exact hs.framing i
  saved := hf
  unowned := hu

/-- Neither threads nor fibers change. -/
theorem heapOnly (hs : Kept hand w) (ht : w'.threads = w.threads) (ha : w'.active = w.active)
    (hf : w'.fibers = w.fibers) (hc : Covers (·.isCounted = true) hand' w')
    (hu : ∀ h, (w'.hub h).disposed = true → (w'.hub h).holders = 0) : Kept hand' w' := by
  refine hs.update ha (by rw [ht]) (fun i _ => by rw [stackAt, ht, stackAt]) hc ?_
    (fun f s h => hs.saved f s (hf ▸ h)) hu
  have hstk : w'.thread.stack = w.thread.stack := by rw [World.thread, ht, ha, World.thread]
  rw [hstk]
  exact hs.framed.stack

theorem trade (hs : Kept hand w) (hc : ∀ k : Token, k.isCounted = true →
    hand'.count k ≤ hand.count k) : Kept hand' w :=
  { hs with covers := hs.covers.trade hc }

theorem unowned_modifyHub (hs : Kept hand w) {f : Hub → Hub}
    (hf : (f (w.hub h)).disposed = true → (f (w.hub h)).holders = 0) (k : HubId)
    (hk : ((w.modifyHub h f).hub k).disposed = true) : ((w.modifyHub h f).hub k).holders = 0 := by
  rcases hub_modifyHub_cases (w := w) (h := k) h f with he | ⟨rfl, he⟩
  · rw [he] at hk ⊢
    exact hs.unowned k hk
  · rw [he] at hk ⊢
    exact hf hk

theorem modifyHub (hs : Kept hand w) {f : Hub → Hub}
    (hf : (f (w.hub h)).disposed = true → (f (w.hub h)).holders = 0)
    (hc : Covers (·.isCounted = true) hand' (w.modifyHub h f)) : Kept hand' (w.modifyHub h f) :=
  hs.heapOnly rfl rfl rfl hc (hs.unowned_modifyHub hf)

theorem modifyObject (hs : Kept hand w) {f : Object → Object}
    (hc : Covers (·.isCounted = true) hand' (w.modifyObject r f)) :
    Kept hand' (w.modifyObject r f) :=
  hs.heapOnly rfl rfl rfl hc hs.unowned

theorem retain (hs : Kept hand w) (hr : 0 < w.demand (.object r) + hand.count (.object r)) :
    Kept (.object r :: hand) (w.retain r) :=
  hs.modifyObject (hs.covers.retain rfl hr fun h => by cases h)

/-- Hubs get other names. -/
theorem rename (hs : Kept hand w) {a : Table HubId}
    (hc : ∀ k, { w with named := a }.tableTokens.count k + hand'.count k =
      w.tableTokens.count k + hand.count k) : Kept hand' { w with named := a } := by
  refine hs.heapOnly rfl rfl rfl (fun k hk => ?_) hs.unowned
  have h₁ := hs.covers k hk
  have h₂ := hc k
  have h₃ : { w with named := a }.supply k = w.supply k := by cases k <;> rfl
  simp only [demand] at h₁ ⊢
  omega

theorem setControl (hs : Kept hand w) {c : Control Task} (hf : c.Framed)
    (hc : Covers (·.isCounted = true) hand' (w.setControl c)) : Kept hand' (w.setControl c) := by
  have hb : Beside w (w.setControl c) := .setControl hs.seated c
  exact hs.update hb.active hb.size hb.stackAt hc
    (by rw [stack_setControl hs.seated]; exact hf.stack) hf.saved hs.unowned

theorem modifyThread (hs : Kept hand w) {f : Thread → Thread}
    (hstk : Item.Framed (f w.thread).stack)
    (hc : Covers (·.isCounted = true) hand' (w.modifyThread f)) :
    Kept hand' (w.modifyThread f) :=
  hs.update rfl (by simp [World.modifyThread])
    (fun i hi => by rw [stackAt_modifyThread hs.seated, if_neg hi]) hc
    (by rw [thread_modifyThread hs.seated]; exact hstk) hs.saved hs.unowned

theorem push (hs : Kept hand w) {ts : List Task}
    (hf : Item.Framed (ts.map .task ++ w.thread.stack))
    (hc : Covers (·.isCounted = true) hand' (w.push ts)) : Kept hand' (w.push ts) :=
  hs.modifyThread hf hc

theorem quiet (hs : Kept hand w) (hq : Quiet w w') : Kept hand w' := by
  have hhub (h : HubId) : w'.hub h = w.hub h := by rw [World.hub, hq.hubs, World.hub]
  refine hs.update hq.active hq.size_threads (fun i _ => hq.stackAt i) (hs.covers.quiet hq) ?_
    (fun f s h => hs.saved f s (hq.fibers ▸ h)) fun h => ?_
  · rw [(hq.thread hs.seated).1]
    exact hs.framed.stack
  · rw [hhub]
    exact hs.unowned h

theorem offered (hs : Kept hand w) (ho : w.Offers hand r) :
    0 < w.demand (.object r) + hand.count (.object r) := by
  rcases Effect.offered (fun _ => rfl) hs.seated hs.covers ho with h | h
  · have := demand_object w r
    omega
  · have := List.count_pos_iff.mpr h
    omega

/-- A hub comes with one owner. -/
theorem createHub (hs : Kept hand w) : Kept (.hub w.hubs.size :: hand) w.createHub.2 := by
  obtain ⟨-, id, hq⟩ := createHub_quiet w
  refine hs.update rfl rfl (fun i _ => hq.stackAt i)
    (hs.covers.createHub (fun _ => rfl) fun _ hk => by cases hk) ?_
    (fun f s h => hs.saved f s (hq.fibers ▸ h)) fun h hd => ?_
  · rw [(hq.thread (by exact hs.seated)).1]
    exact hs.framed.stack
  · rw [World.hub, hq.hubs] at hd ⊢
    by_cases hh : h = w.hubs.size
    · simp [hh] at hd
    · simp only [Array.getElem?_push, if_neg hh] at hd ⊢
      exact hs.unowned h hd

end Kept

end World

namespace Effect

open World

variable {w w' : World} {hand hand' : List Token} {r : Ref} {h : HubId}

private theorem covers_of_kept (e : Effect .full hand w hand' w') (hs : Kept hand w) :
    Covers (·.isCounted = true) hand' w' :=
  e.covers (fun _ => rfl) (fun _ => rfl) hs.seated (fun _ h => by cases h) hs.covers

private theorem create_kept {run : RunFn} {p : Option Ref} (hs : Kept (run.tokens ++ hand) w)
    (hh : w.Reaches h) (hp : ∀ q, p = some q → w.Offers (run.tokens ++ hand) q)
    (hc : w.createGreenlet h run p = (.ok r, w')) : Kept (.object r :: hand) w' := by
  have hcov := covers_of_kept (.create hh hp hc) hs
  obtain ⟨-, rfl, -, id, hq⟩ := createGreenlet_ok hc
  refine hs.update hq.active hq.size_threads (fun i _ => hq.stackAt i) hcov ?_
    (fun f s hf => hs.saved f s (by rw [hq.fibers] at hf; exact hf)) fun k => ?_
  · rw [(hq.thread (by exact hs.seated)).1]
    exact hs.framed.stack
  · rw [World.hub, hq.hubs]
    exact hs.unowned_modifyHub (f := fun s => { s with nodes := w.heap.size :: s.nodes })
      (hs.unowned h) k

private theorem spawn_kept (hs : Kept hand w) (steps : List Script.Step) :
    Kept hand (w.spawnStep steps) := by
  have e : Effect .full hand w hand (w.spawnStep steps) := .spawn steps
  have hp : Kept hand (w.push [.join (w.threads.size + 1)]) :=
    hs.push (hs.framed.stack.push (l := [.join (w.threads.size + 1)]) rfl)
      (covers_of_kept (.push _ rfl fun k => by simp [Task.tokens]) hs)
  have hsize : (w.push [.join (w.threads.size + 1)]).threads.size = w.threads.size := by
    simp [World.push, World.modifyThread]
  have hstk (i : Nat) : (w.spawnStep steps).stackAt i = if i = w.threads.size
      then [.steps steps, .frame {}, .rootEnd, .exitThread].map Item.task
      else (w.push [.join (w.threads.size + 1)]).stackAt i := by
    unfold World.stackAt spawnStep
    simp only [Array.getElem?_push, hsize]
    split <;> rfl
  refine ⟨e.seated hs.seated, covers_of_kept e hs, fun i => ?_, hs.saved, hs.unowned⟩
  rw [hstk]
  split
  · exact Item.framed_alone rfl
  · exact hp.framing i

theorem kept (e : Effect .full hand w hand' w') (hs : Kept hand w) : Kept hand' w' := by
  induction e with
  | trade h => exact hs.trade fun k _ => Nat.le_of_eq (h k)
  | quiet hq => exact hs.quiet hq
  | trans _ _ ih ih' => exact ih' (ih hs)
  | push ts ht hc =>
    exact hs.push (hs.framed.stack.push (Task.all_isAlone_of_isPlain ht))
      (covers_of_kept (.push ts ht hc) hs)
  | frame g hg hf =>
    exact hs.modifyThread (hs.framed.stack.modifyFrameOf g) (covers_of_kept (.frame g hg hf) hs)
  | alloc v hv => exact hs.heapOnly rfl rfl rfl (covers_of_kept (.alloc v hv) hs) hs.unowned
  | retain r ho => exact hs.retain (hs.offered ho)
  | tables a b c hc =>
    exact hs.heapOnly rfl rfl rfl (covers_of_kept (.tables a b c hc) hs) hs.unowned
  | register f hv =>
    refine hs.update rfl ?_ (fun i hi => ?_) (covers_of_kept (.register f hv) hs) ?_ hs.saved
      hs.unowned
    · simp [World.modifyThread, World.alloc]
    · exact (stackAt_modifyThread (by exact hs.seated) _ i).trans (if_neg hi)
    · rw [thread_modifyThread (by exact hs.seated)]
      exact hs.framed.stack
  | take hf hl => exact hs.modifyThread hs.framed.stack (covers_of_kept (.take hf hl) hs)
  | holdHub h hh =>
    obtain ⟨-, hd, -⟩ := hs.covers.of_reaches (K := (·.isCounted = true)) rfl hs.seated hh
    exact hs.modifyHub (fun hx => by simp [hd] at hx) (covers_of_kept (.holdHub h hh) hs)
  | makeHome hv =>
    have hk := hs.createHub
    have e := covers_of_kept (.makeHome hv) hs
    exact hk.modifyThread (f := fun t => { t with home := _ }) hk.framed.stack e
  | create hh hp hc => exact create_kept hs hh hp hc
  | setParent hr hp hsp hl =>
    have hc := covers_of_kept (.setParent hr hp hsp hl) hs
    obtain ⟨-, -, rfl⟩ := setParent_ok hsp
    exact hs.heapOnly rfl rfl rfl hc hs.unowned
  | @call hand hand' w h t p u hh ht hu hc =>
    have hl : (Task.leaveHub h).isAlone = true := rfl
    refine hs.push ⟨⟨fun k hk => ?_, fun k target q he => ?_⟩, .of_isAlone rfl,
      .of_isAlone (Task.isAlone_of_isPlain (Task.isPlain_of_lends hu)), hs.framed.stack⟩
      (covers_of_kept (.call p hh ht hu hc) hs)
    · obtain rfl : h = k := by simpa [Task.guest?] using hk
      simp [Item.keeps, Task.keeps]
    · simp only [Task.switch.injEq] at he
      obtain ⟨rfl, rfl, rfl⟩ := he
      exact ⟨u, _, rfl, hu, ht⟩
  | collect name d hh =>
    exact hs.push (hs.framed.stack.push (l := [.drain _, .leaveHub _, .note name [d]]) rfl)
      (covers_of_kept (.collect name d hh) hs)
  | spawn steps => exact spawn_kept hs steps
  | @fail hand w p =>
    have hc : Covers (·.isCounted = true) hand (w.push [.fail p]) :=
      hs.covers.push hs.seated fun k _ => by simp [Task.tokens]
    have hp := hs.push (hs.framed.stack.push rfl) hc
    exact hp.modifyThread hp.framed.stack (covers_of_kept (.fail p) hs)

end Effect

theorem Item.token_of_keeps {h : HubId} {s : List (Item Task)} (hk : keeps h s = true) :
    .hub h ∈ tokensOf s ∨ .tomb h ∈ tokensOf s := by
  induction s with
  | nil => cases hk
  | cons i s ih =>
    cases i with
    | base f forced => cases hk
    | task t =>
      simp only [keeps, Bool.or_eq_true] at hk
      simp only [tokensOf_cons, Item.tokens, List.mem_append]
      rcases hk with hk | hk
      · cases t with
        | leaveHub k =>
          obtain rfl : k = h := by simpa [Task.keeps] using hk
          exact .inl (.inl (by simp [Task.tokens]))
        | dropHubFields k =>
          obtain rfl : k = h := by simpa [Task.keeps] using hk
          exact .inr (.inl (by simp [Task.tokens]))
        | _ => cases hk
      · exact (ih hk).imp .inr .inr

namespace World.Kept

variable {w : World} {hand hand' : List Token} {r : Ref} {h : HubId}

private theorem demand_of_stack (hs : Kept hand w) {k : Token}
    (hk : k ∈ Item.tokensOf w.thread.stack) : 0 < w.demand k :=
  Covered.demand_of_thread hs.seated.getElem? (by simp [Thread.tokens, hk])

theorem of_tomb (hs : Kept hand w) (hd : 0 < w.demand (.tomb h) + hand.count (.tomb h)) :
    h < w.hubs.size ∧ (w.hub h).disposed = false ∧ (w.hub h).holders = 0 := by
  have hc := hs.covers (.tomb h) rfl
  have hp : 0 < w.supply (.tomb h) := Nat.lt_of_lt_of_le hd hc
  cases hq : w.hubs[h]? with
  | none => simp [supply, hq] at hp
  | some s =>
    simp only [supply, hq, Option.map_some, Option.getD_some, Hub.supply, true_and] at hp
    have hd : s.disposed = false ∧ s.holders = 0 := by
      by_contra hn
      rw [if_neg hn] at hp
      exact absurd hp (Nat.lt_irrefl 0)
    rw [hub_of_some hq]
    exact ⟨(Array.getElem?_eq_some_iff.mp hq).1, hd⟩

/-- Whoever works on a hub finds its references. -/
theorem undisposed (hs : Kept hand w) (hh : w.Enters h) :
    h < w.hubs.size ∧ (w.hub h).disposed = false := by
  rcases hh with hk | hr
  · rcases Item.token_of_keeps hk with ht | ht
    · obtain ⟨h₁, h₂, -⟩ := hs.covers.hub_of_demand (K := (·.isCounted = true)) rfl
        (Nat.lt_of_lt_of_le (hs.demand_of_stack ht) (Nat.le_add_right _ _))
      exact ⟨h₁, h₂⟩
    · obtain ⟨h₁, h₂, -⟩ := hs.of_tomb
        (Nat.lt_of_lt_of_le (hs.demand_of_stack ht) (Nat.le_add_right _ _))
      exact ⟨h₁, h₂⟩
  · obtain ⟨h₁, h₂, -⟩ := hs.covers.of_reaches (K := (·.isCounted = true)) rfl hs.seated hr
    exact ⟨h₁, h₂⟩

theorem backed (hs : Kept hand w) (hb : w.Backs hand r) :
    0 < w.demand (.object r) + hand.count (.object r) := by
  have hd := demand_object w r
  cases hb with
  | hand hr =>
    have := List.count_pos_iff.mpr hr
    omega
  | stack hr =>
    have := hs.demand_of_stack hr
    omega
  | main hh hr =>
    obtain ⟨hlt, hu⟩ := hs.undisposed hh
    have := (spare_of_main hlt hu).1
    rw [hr] at this
    omega
  | parent hq =>
    have := spare_of_parent hq
    omega

theorem count_of_grave (hs : Kept hand w) (hg : .grave r ∈ hand) : w.count r = 0 := by
  have hc := hs.covers (.grave r) rfl
  have hp := List.count_pos_iff.mpr hg
  cases ho : w.object? r with
  | none => simp [count, ho]
  | some o =>
    rw [count_of_some ho]
    by_contra hn
    simp only [supply, ho, Option.map_some, Option.getD_some, Object.supply, true_and,
      if_neg hn] at hc
    omega

theorem release {o : Object} (hs : Kept (.object r :: hand) w) (ho : w.object? r = some o)
    (h : 1 < o.count) : Kept hand (w.unref r) := by
  have hc := hs.covers.release (K := (·.isCounted = true)) rfl ho fun hk => by cases hk
  rw [if_neg (Nat.not_le.mpr h)] at hc
  exact hs.modifyObject hc

theorem unref {o : Object} (hs : Kept (.object r :: hand) w) (ho : w.object? r = some o)
    (h : o.count ≤ 1) : Kept (.grave r :: hand) (w.unref r) := by
  have hc := hs.covers.release (K := (·.isCounted = true)) rfl ho fun hk => by cases hk
  rw [if_pos h] at hc
  exact hs.modifyObject hc

theorem restore {o : Object} {v : Value} (hs : Kept (.object r :: hand) w)
    (ho : w.object? r = some o) (h : o.count ≤ 1)
    (hv : v = o.value ∨ o.value.greenlet? = none ∧ v.greenlet? = none) :
    Kept (.object r :: hand) (w.modifyObject r fun _ => ⟨1, v⟩) := by
  have hc := (hs.unref ho h).covers.revive (K := (·.isCounted = true))
    (f := fun _ => (⟨1, v⟩ : Object)) rfl (fun _ => rfl) fun o' ho' => ?_
  · rw [World.unref, modifyObject_modifyObject] at hc
    exact hs.modifyObject (hc.trade fun k hk => by
      simp only [List.count_cons, Token.count_cons_sole (Token.isTraded_of_isCounted hk)]
      omega)
  · obtain rfl : { o with count := o.count - 1 } = o' :=
      Option.some.inj ((object?_unref ho).symm.trans ho')
    rcases hv with rfl | ⟨h₁, h₂⟩
    · rfl
    · exact (Value.tokens_of_greenlet? h₂).trans (Value.tokens_of_greenlet? h₁).symm

theorem modifyGreenlet (hs : Kept hand w) {f : Greenlet → Greenlet}
    (hc : Covers (·.isCounted = true) hand' (w.modifyGreenlet r f)) :
    Kept hand' (w.modifyGreenlet r f) :=
  hs.modifyObject hc

theorem clear (hs : Kept (.grave r :: hand) w) :
    Kept (.grave r :: ((w.greenlet r).tokens ++ hand))
      (w.modifyGreenlet r fun g =>
        { g with parent := none, run := none, fiber := none, inbox := none }) := by
  refine hs.modifyGreenlet (hs.covers.modifyGreenlet (fun g hg k _ => ?_) fun hn k _ => ?_)
  · rw [greenlet_of_some hg]
    simp only [Greenlet.tokens, Option.map_none, Option.getD_none, List.count_cons,
      List.count_append, List.append_nil]
    simp
    omega
  · rw [greenlet_of_none hn]
    simp [Greenlet.absent, Greenlet.tokens]

/-- What is not counted may be claimed. -/
theorem mint {k : Token} (hs : Kept (.grave r :: hand) w) (hk : k.isCounted = false) :
    Kept (.grave r :: k :: hand) w :=
  hs.trade fun x hx => by
    have hne : k ≠ x := fun he => by rw [he, hx] at hk; cases hk
    simp [List.count_cons, hne]

theorem erase (hs : Kept (.grave r :: hand) w) : Kept hand (w.erase r) :=
  hs.heapOnly rfl rfl rfl (hs.covers.erase rfl) hs.unowned

/-- A hub changes that has the same owners as before. -/
theorem changeHub {f : Hub → Hub} (hs : Kept hand w) (hst : ∀ s : Hub, s.Stays (f s))
    (hc : ∀ k : Token, k.isCounted = true →
      (f (w.hub h)).tokens.count k + hand'.count k ≤ (w.hub h).tokens.count k + hand.count k) :
    Kept hand' (w.modifyHub h f) := by
  refine hs.modifyHub (fun hd => ?_) (hs.covers.modifyHub (fun s he k hk => ?_) fun hn k hk => ?_)
  · rw [(hst _).disposed] at hd
    rw [(hst _).holders]
    exact hs.unowned h hd
  · have := hc k hk
    rw [hub_of_some he] at this
    have hsup : (f s).supply h k = s.supply h k := by
      cases k <;> simp [Hub.supply, (hst s).holders, (hst s).disposed]
    omega
  · have := hc k hk
    have he : (w.hub h).tokens = [] := by simp [World.hub, hn, Hub.tokens]
    rw [he, List.count_nil] at this
    omega

theorem current (hs : Kept (.object r :: hand) w) (hh : w.Enters h) :
    Kept (.object (w.hub h).current :: hand)
      (w.modifyHub h fun s => { s with current := r }) := by
  obtain ⟨hlt, hd⟩ := hs.undisposed hh
  refine hs.modifyHub (hs.unowned h)
    (hs.covers.modifyHub (fun s he k hk => ?_) fun hn => ?_)
  · rw [hub_of_some he] at hd ⊢
    have hsup : ({ s with current := r } : Hub).supply h k = s.supply h k := by
      cases k <;> rfl
    rw [hsup]
    simp only [Hub.tokens, hd, Bool.false_eq_true, if_false, List.count_append, List.count_cons]
    omega
  · exact absurd hlt (by simpa using hn)

theorem hold (hs : Kept hand w) (hl : w.hubLives h = true) :
    Kept (.hub h :: hand) (w.holdHub h) := by
  have hp : 0 < (w.hub h).holders := by simpa [hubLives] using hl
  have hd : (w.hub h).disposed = false := by
    by_contra hd
    have := hs.unowned h (by simpa using hd)
    omega
  exact hs.modifyHub (fun hx => by simp [hd] at hx)
    (hs.covers.holdHub hd hp)

theorem leave (hs : Kept (.hub h :: hand) w) :
    Kept (if (w.hub h).holders ≤ 1 then .tomb h :: hand else hand)
      (w.modifyHub h fun s => { s with holders := s.holders - 1 }) :=
  hs.modifyHub (fun hd => by have := hs.unowned h hd; dsimp only; omega)
    (hs.covers.leaveHub (K := (·.isCounted = true)) rfl).2

theorem close (hs : Kept hand w) (h : HubId) :
    Kept hand (w.modifyHub h fun s => { s with closed := true, nodes := [] }) :=
  hs.modifyHub (hs.unowned h) (hs.covers.modifyHub_of_eq fun _ => ⟨rfl, rfl, rfl⟩)

theorem dispose (hs : Kept (.tomb h :: hand) w) :
    Kept ({ w.hub h with disposed := false }.tokens ++ hand)
      (w.modifyHub h fun s => { s with
        outgoing := none, deferred := [], foreign := [], disposed := true }) := by
  obtain ⟨hlt, hd, hz⟩ := hs.of_tomb (h := h) (by
    rw [List.count_cons_self]
    omega)
  refine hs.modifyHub (fun _ => hz) (hs.covers.modifyHub (fun s he k hk => ?_) fun hn => ?_)
  · rw [hub_of_some he] at hd hz ⊢
    have h₁ : ({ s with outgoing := none, deferred := [], foreign := [], disposed := true } :
        Hub).tokens = [] := by simp [Hub.tokens]
    have h₂ : s.supply h k = if k = .tomb h then 1 else 0 := by
      cases k <;> simp [Hub.supply, hd, hz, eq_comm]
    have h₄ : [Token.tomb h].count k = if k = .tomb h then 1 else 0 := by
      simp only [List.count_singleton, beq_iff_eq]
      exact if_congr eq_comm rfl rfl
    have h₃ : ({ s with disposed := false } : Hub).tokens = s.tokens := by simp [Hub.tokens, hd]
    rw [h₁, h₃]
    change _ + _ + _ ≤ _ + ([Token.tomb h] ++ hand).count k + _
    rw [List.count_append, List.count_append, h₂, h₄, List.count_nil]
    omega
  · exact absurd hlt (by simpa using hn)

end World.Kept

namespace Motion

open World

variable {w w' : World} {hand hand' : List Token} {r : Ref} {h : HubId}

theorem kept (m : Motion .full hand w hand' w') (hs : Kept hand w) : Kept hand' w' := by
  induction m with
  | script e => exact e.kept hs
  | trade h => exact hs.trade fun k hk => h.le_of_isCounted hk
  | trans _ _ ih ih' => exact ih' (ih hs)
  | lock l => exact hs.heapOnly rfl rfl rfl hs.covers hs.unowned
  | control hf _ hc =>
    refine hs.setControl (hf hs.framed) (hs.covers.setControl hs.seated fun k hk => ?_)
    have := hc hs.framed k (Token.isTraded_of_isCounted hk)
    cases k with
    | sole | fiber | doom | urn => cases hk
    | _ => simpa [Control.backing] using this
  | retain r hb => exact hs.retain (hs.backed hb)
  | release _ ho h => exact hs.release ho h
  | bury _ ho h hm => exact (hs.unref ho h).mint rfl
  | @retire hand v r _ g _ ho h hm hf =>
    have hk : Kept (.grave r :: hand) (v.unref r) := hs.unref ho h
    suffices hr : Kept (.grave r :: hand)
        (if v.hubLives g.hub then (v.unref r).forget g.hub r else v.unref r) from hr.mint rfl
    split
    · exact hk.modifyHub (hk.unowned g.hub) (hk.covers.modifyHub_of_eq fun _ => ⟨rfl, rfl, rfl⟩)
    · exact hk
  | restore _ ho h hv => exact hs.restore ho h hv.greenlet?
  | clear r => exact hs.clear
  | empty r h => exact hs.mint rfl
  | @erase hand _ r =>
    have hg : Kept (.grave r :: hand) _ := hs.trade fun k _ => by
      simp only [List.count_cons]
      omega
    exact hg.erase
  | greenlet _ _ _ _ hc h₀ =>
    exact hs.modifyGreenlet (hs.covers.modifyGreenlet
      (fun g hg k hk => (hc g hg).le_of_isCounted hk) fun hn k hk => (h₀ hn).le_of_isCounted hk)
  | hub _ hst hc => exact hs.changeHub hst fun k hk => hc.le_of_isCounted hk
  | @send _ _ r _ hh =>
    refine hs.changeHub (fun _ => ⟨rfl, rfl, rfl, rfl, rfl, rfl, rfl⟩) fun k hk => ?_
    have := Token.count_queued (Token.isTraded_of_isCounted hk) r
    simp only [Hub.tokens, List.flatMap_append, List.flatMap_singleton, List.count_append,
      List.count_cons, List.count_nil] at this ⊢
    omega
  | current _ he ht => exact hs.current he
  | names a _ hc => exact hs.rename hc
  | expire =>
    refine hs.modifyThread hs.framed.stack (hs.covers.modifyThread hs.seated fun k _ => ?_)
    simp only [Thread.tokens, Slot.tokens, Obj.tokens, Slot.get?, Option.map_none,
      Option.toList_none, List.count_append, List.count_nil]
    omega
  | vacate hv =>
    refine hs.modifyThread hs.framed.stack (hs.covers.modifyThread hs.seated fun k _ => ?_)
    simp [Thread.tokens, Slot.tokens, Slot.get?]
  | hold _ hl => exact hs.hold hl
  | leave => exact hs.leave
  | close => exact hs.close _
  | dispose => exact hs.dispose

end Motion

end Switchyard
