import Switchyard.Proofs.Facade.Transfers

/-!
# The end of a hub

A hub is shut by the thread that it belongs to, at the exit of that thread. Its greenlets lose
their stacks and what they have not used. From then on the hub is idle, whatever happens to it.
-/

namespace Switchyard

open World

namespace World

variable {A : Prop} {w v : World} {m : Mode} {e : Edge} {t : Task} {below : List (Item Task)}
  {hand : List Token} {h : HubId} {f : FiberId} {r : Ref}

theorem staged_of_closed (hc : (w.hub h).closed = true) (e : Edge) : w.Staged A h .idle e where
  shut _ := rfl
  home ho := by rw [hc] at ho; cases ho
  fine ho := by rw [hc] at ho; cases ho

theorem Staging.steady_of_shut (hs : Staging A none w) (hc : Covered hand w)
    (hm : Mode.of w.thread.stack = some .idle)
    (hf : Item.Filed w (w.active - 1) w.thread.stack) (hsh : w.Shut h (w.active - 1)) :
    Steady A hand .idle w := by
  refine ⟨hs.reinstate fun k hk ht => ?_, hc, hm, hf⟩
  obtain rfl : h = k := hs.unique h k hsh.1.1 hk
    (hsh.1.2.trans ((Nat.sub_add_cancel hs.seated.1).trans ht.symm))
  exact staged_of_closed hsh.2 _

theorem Sound.poise_closing (hs : Sound A w) (hstk : w.thread.stack = .task t :: below)
    (hr : t.role = .closing) :
    Poised A t.tokens .idle .idle (Item.edge (.task t :: below)) (w.setStack below) ∧
      t.Filed (w.setStack below) ((w.setStack below).active - 1)
        (w.setStack below).thread.stack := by
  obtain ⟨m₀, m, hi, hp, hf⟩ := hs.poise hstk
  obtain ⟨rfl, rfl⟩ := Mode.of_step_ground hi (g := .idle) (by rw [hr]; rfl)
  exact ⟨hp, hf⟩

theorem Poised.thread_eq {m₀ : Mode} (hs : Poised A hand m₀ m e w) (ho : w.Owned h (w.active - 1)) :
    (w.hub h).thread = w.active :=
  ho.2.trans (Nat.sub_add_cancel hs.seated.1)

theorem Steady.leaveHub (hs : Steady A [.hub h] m w) (hm : m.isOpen = true)
    (ho : w.Owned h (w.active - 1)) : Sound A (w.leaveHub h) := by
  have ht : (w.hub h).thread = w.active := ho.2.trans (Nat.sub_add_cancel hs.seated.1)
  obtain ⟨⟨s, hs', hd, hpos⟩, hc⟩ := hs.covered.leaveHub
  have hl : Later w (w.modifyHub h fun s => { s with holders := s.holders - 1 }) :=
    .modifyHub' h fun _ => ⟨rfl, rfl, rfl⟩
  have h₁ : Steady A (if (w.hub h).holders ≤ 1 then [.tomb h] else []) m
      (w.modifyHub h fun s => { s with holders := s.holders - 1 }) :=
    hs.same (hs.staging.modifyHub (fun _ => ⟨rfl, rfl, rfl⟩) (fun o => { o with })
      (fun _ _ _ _ _ hr => hr) (.inr rfl)) hc hl rfl rfl
  have hhub := hub_modifyHub (w := w) h h (fun s => { s with holders := s.holders - 1 }) ho.1
  rw [if_pos rfl] at hhub
  unfold World.leaveHub
  dsimp only
  by_cases hn : (w.hub h).holders ≤ 1
  · have hclosed : (w.hub h).closed = true := by
      by_contra hopen
      have hst := hs.staging.staged h ho.1 m .plain (by rw [Shows, if_pos ht])
      have hhome := (hst.home (by simpa using hopen)).resolve_right (by simp)
      rw [ht, homeAt_active hs.seated] at hhome
      have h₂ := Covered.demand_of_home hs.seated.getElem? hhome
      have h₃ := hs.covered (.hub h) rfl
      rw [hub_of_some hs'] at hn
      simp only [supply, hs', Option.map_some, Option.getD_some, Hub.supply, hd, and_self, if_true,
        List.count_cons_self, List.count_nil] at h₃
      omega
    have hidle : m = .idle :=
      (hs.staging.staged h ho.1 m .plain (by rw [Shows, if_pos ht])).shut hclosed
    subst hidle
    have hsh : (w.modifyHub h fun s => { s with holders := s.holders - 1 }).Shut h (w.active - 1) :=
      ⟨ho.later hl, by rw [hhub]; exact hclosed⟩
    rw [if_pos hn] at h₁
    rw [if_neg (by simp only [hubLives, hhub, decide_eq_true_eq]; omega)]
    have hp : Poised A [.tomb h] .idle .idle .plain _ := ⟨h₁.staging, h₁.covered, h₁.mode, h₁.filed⟩
    exact hp.push rfl (.inl rfl) ⟨.inl hsh, hsh, h₁.filed⟩ fun k => by simp [Task.tokens]
  · rw [if_neg hn] at h₁
    rw [if_pos (by simp only [hubLives, hhub, decide_eq_true_eq]; omega)]
    exact h₁.sound

theorem count_drops_queued {rs qs : List Ref} (hp : rs.Perm qs) (k : Token) :
    (Task.tokensOf (rs.map .drop)).count k ≤ (qs.flatMap Token.queued).count k := by
  rw [← (hp.flatMap_right Token.queued).count_eq, Task.tokensOf_map_drop]
  clear hp
  induction rs with
  | nil => exact Nat.le_refl _
  | cons r rs ih =>
    simp only [List.map_cons, List.flatMap_cons, List.count_append, Token.queued, List.count_cons]
    omega

theorem all_isFree_drops (rs : List Ref) : (rs.map Task.drop).all Task.isFree = true := by
  simp [List.all_eq_true, Task.isFree, Task.isPlain]

theorem Sound.dropHubFields (hs : Sound A w)
    (hstk : w.thread.stack = .task (.dropHubFields h) :: below) :
    Sound A ((w.setStack below).dropHubFields h) := by
  obtain ⟨hp, hsh⟩ := hs.poise_closing hstk rfl
  change (w.setStack below).Shut h _ at hsh
  generalize w.setStack below = v at *
  have ht := hp.thread_eq hsh.1
  have hlt := hsh.1.1
  set u : Hub → Hub := fun s =>
    { s with outgoing := none, deferred := [], foreign := [], disposed := true } with hu
  have hl : Later v (v.modifyHub h u) := .modifyHub' h fun _ => ⟨rfl, rfl, rfl⟩
  have hst : Staging A none (v.modifyHub h u) := hp.staging.exempt.1.modifyHub
    (fun _ => ⟨rfl, rfl, rfl⟩)
    (fun o => { o with posted := nofun, queued := nofun, disposed := fun _ => hsh.2 })
    (fun _ _ _ _ _ hr => hr) (.inl ⟨rfl, ht⟩)
  have hcov : Covered (Task.tokensOf ([.drop (v.hub h).main, .drop (v.hub h).current] ++
      Task.dropOutgoing (v.hub h).outgoing ++
        ((v.hub h).deferred.reverse ++ (v.hub h).foreign).map .drop)) (v.modifyHub h u) := by
    have htomb := hp.covered (.tomb h) rfl
    refine hp.covered.modifyHub (fun s hs' k => ?_) fun hn => ?_
    · rw [hub_of_some hs']
      have h₁ := count_drops_queued (s.deferred.reverse_perm.append_right s.foreign) k
      simp only [supply, hs', Option.map_some, Option.getD_some, Hub.supply, Task.tokens,
        List.count_cons_self, List.count_nil, true_and] at htomb
      have h₂ : s.disposed = false ∧ s.holders = 0 := by
        by_contra hn
        rw [if_neg hn] at htomb
        omega
      have h₃ : s.supply h k = if k = .tomb h then 1 else 0 := by
        cases k <;> simp [Hub.supply, h₂.1, h₂.2, eq_comm]
      have h₄ : (u s).supply h k = 0 := by cases k <;> simp [Hub.supply, hu]
      have h₅ : (u s).tokens.count k = 0 := by simp [hu, Hub.tokens]
      have h₆ : s.tokens.count k = ([.object s.main, .object s.current] : List Token).count k +
          ((s.outgoing.map Outgoing.tokens).getD []).count k +
          ((s.deferred ++ s.foreign).flatMap Token.queued).count k := by
        rw [Hub.tokens, if_neg (by rw [h₂.1]; exact Bool.false_ne_true), List.flatMap_append]
        simp only [List.count_append]
        omega
      have h₇ : ([Token.tomb h] : List Token).count k = if k = .tomb h then 1 else 0 := by
        simp only [List.count_singleton, beq_iff_eq]
        exact if_congr eq_comm rfl rfl
      have h₈ : (Task.tokensOf [.drop s.main, .drop s.current]).count k =
          ([.object s.main, .object s.current] : List Token).count k := rfl
      rw [h₃, h₄, h₅, h₆, Task.tokensOf_append, Task.tokensOf_append, List.count_append,
        List.count_append, h₈, Task.tokensOf_dropOutgoing]
      change _ ≤ _ + ([Token.tomb h] : List Token).count k + _
      rw [h₇]
      omega
    · exact absurd hlt (by simpa using hn)
  have h₁ : Steady A _ .idle (v.modifyHub h u) := hst.steady_of_shut hcov hp.mode
    (hp.filed.later hl) (h := h) (hsh.later hl)
  have hfree : ([Task.drop (v.hub h).main, .drop (v.hub h).current] ++
      Task.dropOutgoing (v.hub h).outgoing ++
        ((v.hub h).deferred.reverse ++ (v.hub h).foreign).map Task.drop).all Task.isFree = true := by
    rw [List.all_append, List.all_append, Task.all_isFree_dropOutgoing, all_isFree_drops]
    rfl
  exact (h₁.pushFree rfl hfree fun k => Nat.le_refl _).sound

theorem Staging.giveUp (hs : Staging A none w) {g : Greenlet} {p : Pinned FiberId}
    (hg : w.greenlet? r = some g) (hp : g.fiber = some p) (ht : (w.hub g.hub).thread = w.active)
    (hr : (w.fiberD p.value).isActive = false) :
    Staging A none (w.setControl (w.control.abandon p.value)) ∧
      Later w (w.setControl (w.control.abandon p.value)) ∧
      ((w.setControl (w.control.abandon p.value)).fiberD p.value).isOver = true ∧
      ∀ q, q ≠ p.value → (w.setControl (w.control.abandon p.value)).fiberD q = w.fiberD q := by
  obtain ⟨-, hfib⟩ := Control.abandon_rested (c := w.control) hr
  obtain ⟨n, -, hd⟩ := hs.decent hg
  have hlt := (hd.saved p hp).1
  have hfd (q : FiberId) (hq : q < w.fibers.size) :
      (w.setControl (w.control.abandon p.value)).fiberD q = if p.value = q then
        { w.fiberD q with armed := false, finished := true, phase := .taken } else w.fiberD q := by
    rw [fiberD_eq, World.setControl, hfib, fiberD_eq]
    simp only [World.control, Array.getElem?_modify, Array.getElem?_eq_getElem hq]
    split <;> rfl
  have hl : Later w (w.setControl (w.control.abandon p.value)) :=
    (Later.modifyFiber p.value (g := fun s =>
      { s with armed := false, finished := true, phase := .taken }) fun _ =>
        ⟨fun _ => rfl, fun _ => rfl, id⟩).trans (.of_eq rfl rfl hfib)
  refine ⟨hs.fibers (.setControl hs.seated _) rfl rfl hl ?_ fun q k p' hk hp' => ?_, hl, ?_,
    fun q hq => ?_⟩
  · rw [World.setControl, hfib]
    simp [World.control]
  · obtain ⟨n', -, hd'⟩ := hs.decent hk
    rw [hfd p'.value (hd'.saved p' hp').1]
    split
    · rename_i he
      obtain rfl := hs.pins _ _ _ _ _ _ hg hk hp hp' he
      obtain rfl : k = g := Option.some.inj (hk.symm.trans hg)
      exact .inr ⟨trivial, rfl, ht⟩
    · exact .inl (.refl _)
  · rw [hfd _ hlt, if_pos rfl]
    rfl
  · rw [fiberD_eq, World.setControl, hfib, fiberD_eq]
    simp only [World.control, Array.getElem?_modify, if_neg (Ne.symm hq)]

theorem abandonStack_eq (hw : w.Seated) {g : Greenlet} (hg : w.greenlet? r = some g)
    (hf : g.fiber = some ⟨w.active, f⟩) (hr : (w.fiberD f).isActive = false) {u : World}
    (hu : u = (w.setControl (w.control.abandon f)).modifyGreenlet r fun g =>
      { g with state := .dead, fiber := none })
    (hflag : (u.control.unshare f u.isPanicking).2 = false) :
    w.abandonStack r = (true, u.unshare f) := by
  obtain ⟨hstk, -⟩ := Control.abandon_rested (c := w.control) hr
  have hset := setControl_control hw (·.abandon f) hstk
  have hctl : u.control = w.control.abandon f := by
    rw [hu, hset]
    exact congrArg (fun s => Control.mk s _ _) hstk.symm
  have hpan : u.isPanicking = w.isPanicking := by rw [hu, hset]; rfl
  rw [World.unshare, takeControl, if_neg (by rw [hflag]; exact Bool.false_ne_true), hctl, hpan, hu,
    hset]
  unfold World.abandonStack
  rw [greenlet_of_some hg, hf]
  simp only [Pinned.get?]
  rw [if_pos (show w.active = (w.modifyGreenlet r _).active from rfl)]
  rfl

theorem count_abandonStack (r q : Ref) : (w.abandonStack r).2.count q = w.count q := by
  have hm : (w.modifyGreenlet r fun g => { g with state := .dead, fiber := none }).count q =
      w.count q := count_modifyGreenlet r q _
  unfold World.abandonStack
  dsimp only
  split
  · exact hm
  · split <;> exact hm

theorem Staging.abandonStack (hs : Staging A none w) (hc : Covered hand w) {g : Greenlet}
    (hg : w.greenlet? r = some g) (ht : (w.hub g.hub).thread = w.active)
    (hf : ∀ p, g.fiber = some p → p.owner = w.active ∧ (w.fiberD p.value).isActive = false) :
    ∃ u, w.abandonStack r = (g.hasStack, u) ∧ Staging A none u ∧ Covered hand u ∧ Later w u ∧
      Beside w u ∧ u.hubs = w.hubs ∧ u.thread = w.thread ∧
      (∀ q, u.greenlet? q = if r = q then (w.greenlet? q).map fun g =>
        { g with state := .dead, fiber := none } else w.greenlet? q) ∧
      ∀ q, (∀ p, g.fiber = some p → p.value ≠ q) → u.fiberD q = w.fiberD q := by
  have hkill (v : World) : Later v (v.modifyGreenlet r fun g =>
      { g with state := .dead, fiber := none }) :=
    .modifyGreenlet r fun _ _ => ⟨rfl, rfl, rfl, rfl, fun _ => rfl, id⟩
  cases hp : g.fiber with
  | none =>
    refine ⟨w.modifyGreenlet r fun g => { g with state := .dead, fiber := none }, ?_,
      hs.kill hg ht (by simp [hp]), ?_, hkill w, .modifyGreenlet r _, rfl, rfl,
      fun q => greenlet?_modifyGreenlet r q _, fun _ _ => rfl⟩
    · unfold World.abandonStack
      simp [greenlet_of_some hg, hp, Greenlet.hasStack]
    · refine hc.modifyGreenlet (fun k hk x => ?_) fun _ _ => Nat.le_refl _
      obtain rfl : k = g := Option.some.inj (hk.symm.trans hg)
      simp [Greenlet.tokens, hp]
  | some p =>
    obtain ⟨hown, hact⟩ := hf p hp
    obtain ⟨i, f⟩ := p
    obtain rfl : i = w.active := hown
    obtain ⟨h₁, hl₁, hover, hsame⟩ := hs.giveUp hg hp ht hact
    have hc₁ : Covered hand (w.setControl (w.control.abandon f)) := hc.setControl hs.seated fun x => by
      have := Control.claims_abandon (k := w.control) (f := f) x
      rw [Control.backing_abandon]
      omega
    have h₂ := h₁.kill hg ht fun p' hp' => by
      rw [hp] at hp'
      cases hp'
      exact hover
    have hc₂ : Covered (.fiber f :: hand) ((w.setControl (w.control.abandon f)).modifyGreenlet r
        fun g => { g with state := .dead, fiber := none }) := by
      refine hc₁.modifyGreenlet (fun k hk x => ?_) fun hn => ?_
      · obtain rfl : k = g := Option.some.inj (hk.symm.trans hg)
        simp only [Greenlet.tokens, hp, Option.map_some, Option.map_none, Option.getD_some,
          Option.getD_none, Pinned.tokens, List.count_append, List.count_cons, List.count_nil]
        omega
      · rw [show (w.setControl (w.control.abandon f)).greenlet? r = _ from hg] at hn
        cases hn
    generalize hu : (w.setControl (w.control.abandon f)).modifyGreenlet r (fun g =>
      { g with state := .dead, fiber := none }) = u at h₂ hc₂
    obtain ⟨hflag, hform⟩ := h₂.unshare_eq hc₂
    obtain ⟨h₃, hc₃, hl₃, ha₃, ht₃⟩ := h₂.unshare hc₂
    have hset := setControl_control hs.seated (·.abandon f) (Control.abandon_rested (c := w.control) hact).1
    have hfib (q : FiberId) (hq : f ≠ q) : (u.unshare f).fiberD q = w.fiberD q := by
      have hm (v : World) (F : Fiber Task → Fiber Task) :
          (v.modifyFiber f F).fiberD q = v.fiberD q := by
        rw [fiberD_eq, fiberD_eq, World.modifyFiber]
        simp only [Array.getElem?_modify, if_neg hq]
      have hu₁ : u.fiberD q = w.fiberD q := by
        rw [← hu]
        exact hsame q (Ne.symm hq)
      rcases hform with h | ⟨h, -⟩ <;> rw [h] <;> simp only [hm, hu₁]
    have hsame₃ : (u.unshare f).hubs = u.hubs ∧ (u.unshare f).heap = u.heap ∧
        Beside u (u.unshare f) := by
      rcases hform with h | ⟨h, -⟩ <;> rw [h] <;>
        exact ⟨rfl, rfl, .of_threads rfl rfl rfl⟩
    refine ⟨u.unshare f, ?_, h₃, hc₃, ?_, ?_, ?_, ?_, fun q => ?_, fun q hq => hfib q ?_⟩
    · rw [abandonStack_eq hs.seated hg hp hact hu.symm hflag]
      simp [Greenlet.hasStack, hp]
    · exact (hl₁.trans (by rw [← hu]; exact hkill _)).trans hl₃
    · exact (Beside.setControl hs.seated _).trans
        ((by rw [← hu]; exact .modifyGreenlet r _ : Beside _ u).trans hsame₃.2.2)
    · rw [hsame₃.1, ← hu]
      rfl
    · rw [ht₃, ← hu, hset]
      rfl
    · rw [show (u.unshare f).greenlet? q = u.greenlet? q by
        simp only [World.greenlet?, World.object?, hsame₃.2.1], ← hu]
      exact greenlet?_modifyGreenlet r q _
    · exact hq _ rfl

theorem Staging.strip (hs : Staging A none w) {g : Greenlet} (hg : w.greenlet? r = some g)
    (ht : (w.hub g.hub).thread = w.active) (hf : g.fiber = none) :
    Staging A none (w.modifyGreenlet r fun g => { g with run := none, inbox := none }) := by
  have hl : Later w (w.modifyGreenlet r fun g => { g with run := none, inbox := none }) :=
    .modifyGreenlet r fun _ _ => ⟨rfl, rfl, rfl, rfl, id, fun _ => rfl⟩
  refine hs.modifyGreenlet hl fun n k ho => ?_
  obtain rfl : k = g := Option.some.inj ((greenlet?_eq_some_iff.mpr ⟨n, ho⟩).symm.trans hg)
  have hd := hs.greenlets r n k ho
  exact ⟨rfl, ⟨hd.hub, hd.thread, fun p hp => (hd.parent p hp).later hl,
    fun hm => ⟨rfl, (hd.main hm).2⟩, fun h => absurd hf h, hd.buried, hd.shut,
    fun hc hm hn => ⟨(hd.ended hc hm hn).1, rfl⟩, hd.listed, by simp [hf]⟩, .inl rfl,
    fun _ => .inl ⟨rfl, ht⟩⟩

/-- Since `w` the greenlets of the hub `h` of the active thread are being shut, as `v` stands. Those
in `rest` are still to be. -/
structure Shutting (A : Prop) (w : World) (h : HubId) (rest : List Ref) (hand : List Token)
    (v : World) : Prop where
  staging : Staging A none v
  covered : Covered hand v
  later : Later w v
  beside : Beside w v
  hubs : v.hubs = w.hubs
  stack : v.thread.stack = w.thread.stack
  belongs : ∀ r ∈ rest, v.Belongs r h
  left : ∀ r g, v.greenlet? r = some g → g.hub = h → g.fiber ≠ none → r ∈ rest
  ended : ∀ r g, v.greenlet? r = some g → g.hub = h → g.isMain = false → 0 < v.count r →
    r ∈ rest ∨ g.state = .dead ∧ g.run = none
  still : ∀ r g p, v.greenlet? r = some g → g.hub = h → g.fiber = some p →
    p.owner = v.active ∧ (v.fiberD p.value).isActive = false

namespace Shutting

variable {rest : List Ref}

theorem skip (hs : Shutting A w h (r :: rest) hand v) (hg : v.greenlet? r = none) :
    v.shutGreenlet r = (false, [], v) ∧ Shutting A w h rest hand v := by
  have hnone (F : Greenlet → Greenlet) : v.modifyGreenlet r F = v :=
    modifyGreenlet_eq_self fun g h => by rw [hg] at h; cases h
  have habs : v.greenlet r = .absent := greenlet_of_none hg
  refine ⟨by simp [World.shutGreenlet, World.abandonStack, habs, Greenlet.absent, hnone], ?_⟩
  exact { hs with
    belongs := fun q hq => hs.belongs q (List.mem_cons_of_mem r hq)
    left := fun q g hq hh hf => by
      rcases List.mem_cons.mp (hs.left q g hq hh hf) with rfl | h
      · rw [hg] at hq; cases hq
      · exact h
    ended := fun q g hq hh hm hn => by
      refine (hs.ended q g hq hh hm hn).imp_left fun h => ?_
      rcases List.mem_cons.mp h with rfl | h
      · rw [hg] at hq; cases hq
      · exact h }

theorem step (hs : Shutting A w h (r :: rest) hand v) (ht : (w.hub h).thread = w.active) :
    ∃ had more u, v.shutGreenlet r = (had, more, u) ∧ more.all Task.isFree = true ∧
      Shutting A w h rest (Task.tokensOf more ++ hand) u := by
  cases hg : v.greenlet? r with
  | none =>
    obtain ⟨he, hn⟩ := hs.skip hg
    exact ⟨false, [], v, he, rfl, hn⟩
  | some g =>
    obtain ⟨n, ho, -⟩ := hs.staging.decent hg
    obtain ⟨g', hg', hh⟩ := (hs.belongs r List.mem_cons_self).greenlet? ho
    obtain rfl : g' = g := Option.some.inj (hg'.symm.trans hg)
    have hthread : (v.hub g'.hub).thread = v.active := by
      rw [hh, World.hub, hs.hubs, hs.beside.active]
      exact ht
    obtain ⟨u, he, h₁, hc₁, hl₁, hb₁, hh₁, ht₁, hg₁, hf₁⟩ := hs.staging.abandonStack hs.covered hg
      hthread fun p hp => hs.still r g' p hg hh hp
    have hgu : u.greenlet? r = some { g' with state := .dead, fiber := none } := by
      rw [hg₁, if_pos rfl, hg]
      rfl
    have hstrip : Later u (u.modifyGreenlet r fun g => { g with run := none, inbox := none }) :=
      .modifyGreenlet r fun _ _ => ⟨rfl, rfl, rfl, rfl, id, fun _ => rfl⟩
    have hgv (q : Ref) (k : Greenlet)
        (hk : (u.modifyGreenlet r fun g => { g with run := none, inbox := none }).greenlet? q =
          some k) (hf : k.fiber ≠ none) : r ≠ q ∧ v.greenlet? q = some k := by
      rw [greenlet?_modifyGreenlet] at hk
      split at hk
      · subst_vars
        rw [hgu] at hk
        cases hk
        exact absurd rfl hf
      · rename_i hq
        rw [hg₁, if_neg hq] at hk
        exact ⟨hq, hk⟩
    refine ⟨g'.hasStack, (g'.run.map Task.dropRun).getD [] ++ (g'.inbox.map Task.dropPayload).getD [],
      u.modifyGreenlet r fun g => { g with run := none, inbox := none }, ?_, ?_, ?_⟩
    · unfold World.shutGreenlet
      rw [he]
      simp only [greenlet_of_some hgu]
    · rw [List.all_append, Bool.and_eq_true]
      constructor
      · cases g'.run with
        | none => rfl
        | some run => exact Task.all_isFree_dropRun run
      · cases g'.inbox with
        | none => rfl
        | some p => exact Task.all_isFree_dropPayload p
    · constructor
      · exact h₁.strip hgu (by rw [World.hub, hh₁, hb₁.active]; exact hthread) rfl
      · refine hc₁.modifyGreenlet (fun k hk x => ?_) fun hn => ?_
        · obtain rfl := Option.some.inj (hk.symm.trans hgu)
          cases g'.run <;> cases g'.inbox <;> simp [Greenlet.tokens, List.count_append] <;> omega
        · rw [hgu] at hn; cases hn
      · exact (hs.later.trans hl₁).trans hstrip
      · exact (hs.beside.trans hb₁).trans (.modifyGreenlet r _)
      · exact hh₁.trans hs.hubs
      · exact (congrArg Thread.stack ht₁).trans hs.stack
      · exact fun q hq => ((hs.belongs q (List.mem_cons_of_mem r hq)).later hl₁).later hstrip
      · intro q k hk hkh hf
        obtain ⟨hq, hv⟩ := hgv q k hk hf
        exact (List.mem_cons.mp (hs.left q k hv hkh hf)).resolve_left (Ne.symm hq)
      · intro q k hk hkh hm hn
        by_cases hq : r = q
        · subst hq
          rw [greenlet?_modifyGreenlet, if_pos rfl, hgu] at hk
          cases hk
          exact .inr ⟨rfl, rfl⟩
        · rw [greenlet?_modifyGreenlet, if_neg hq, hg₁, if_neg hq] at hk
          have hcount : u.count q = v.count q := by
            have hc := count_abandonStack (w := v) r q
            rw [he] at hc
            exact hc
          rw [count_modifyGreenlet, hcount] at hn
          exact (hs.ended q k hk hkh hm hn).imp_left fun h =>
            (List.mem_cons.mp h).resolve_left (Ne.symm hq)
      · intro q k p hk hkh hp
        obtain ⟨hq, hv⟩ := hgv q k hk (by simp [hp])
        obtain ⟨h₂, h₃⟩ := hs.still q k p hv hkh hp
        refine ⟨h₂.trans hb₁.active.symm, ?_⟩
        have hfd := hf₁ p.value fun p' hp' he => hq (hs.staging.pins r q g' k p' p hg hv hp' hp he)
        exact (congrArg Fiber.isActive hfd).trans h₃

theorem all {drops : List Task} (hs : Shutting A w h rest (Task.tokensOf drops ++ hand) v)
    (ht : (w.hub h).thread = w.active) (hd : drops.all Task.isFree = true) (n : Nat) :
    ∃ n' drops' u, rest.foldl shutNext (n, drops, v) = (n', drops', u) ∧
      drops'.all Task.isFree = true ∧ Shutting A w h [] (Task.tokensOf drops' ++ hand) u := by
  induction rest generalizing drops v n with
  | nil => exact ⟨n, drops, v, rfl, hd, hs⟩
  | cons r rest ih =>
    obtain ⟨had, more, u, he, hm, h₁⟩ := hs.step ht
    have h₂ : Shutting A w h rest (Task.tokensOf (drops ++ more) ++ hand) u :=
      { h₁ with covered := h₁.covered.trade fun k => by simp; omega }
    rw [List.foldl_cons, shutNext, he]
    exact ih h₂ (by rw [List.all_append, hd, hm]; rfl) _

end Shutting

theorem shutGreenlet_modifyHub (F : Hub → Hub) (r : Ref) (w : World) :
    (w.modifyHub h F).shutGreenlet r =
      ((w.shutGreenlet r).1, (w.shutGreenlet r).2.1, (w.shutGreenlet r).2.2.modifyHub h F) := by
  have hstack : (w.modifyHub h F).abandonStack r =
      ((w.abandonStack r).1, (w.abandonStack r).2.modifyHub h F) := by
    have hg : (w.modifyHub h F).greenlet r = w.greenlet r := rfl
    unfold World.abandonStack
    dsimp only
    rw [hg]
    cases (w.greenlet r).fiber with
    | none => rfl
    | some p =>
      obtain ⟨i, f⟩ := p
      by_cases hi : i = w.active
      · subst hi
        simp only [Pinned.get?]
        rw [if_pos (show w.active = ((w.modifyHub h F).modifyGreenlet r _).active from rfl),
          if_pos (show w.active = (w.modifyGreenlet r _).active from rfl)]
        rfl
      · simp only [Pinned.get?]
        rw [if_neg (show ¬ i = ((w.modifyHub h F).modifyGreenlet r _).active from hi),
          if_neg (show ¬ i = (w.modifyGreenlet r _).active from hi)]
        rfl
  unfold World.shutGreenlet
  rw [hstack]
  rfl

theorem foldl_shutNext_modifyHub (F : Hub → Hub) (rs : List Ref) (n : Nat) (drops : List Task)
    (w : World) : rs.foldl shutNext (n, drops, w.modifyHub h F) =
      ((rs.foldl shutNext (n, drops, w)).1, (rs.foldl shutNext (n, drops, w)).2.1,
        (rs.foldl shutNext (n, drops, w)).2.2.modifyHub h F) := by
  induction rs generalizing n drops w with
  | nil => rfl
  | cons r rs ih =>
    simp only [List.foldl_cons, shutNext, shutGreenlet_modifyHub]
    exact ih ..

theorem Poised.shutting (hs : Poised A hand .idle .idle e w) (ho : w.Owned h (w.active - 1))
    (hopen : (w.hub h).closed = false) : Shutting A w h (w.hub h).nodes hand w where
  staging := hs.staging.exempt.1
  covered := hs.covered
  later := .refl w
  beside := .of_threads rfl rfl rfl
  hubs := rfl
  stack := rfl
  belongs := (hs.staging.hubs h ho.1).nodes
  left r g hg hh hf := by
    subst hh
    obtain ⟨n, -, hd⟩ := hs.staging.decent hg
    exact hd.listed hopen (hd.spent hf).2 (Nat.pos_of_ne_zero fun hn => hf (hd.buried hn))
  ended r g hg hh hm hn := by
    subst hh
    obtain ⟨n, hob, hd⟩ := hs.staging.decent hg
    rw [count_of_some hob] at hn
    exact .inl (hd.listed hopen hm hn)
  still r g p hg hh hp := by
    subst hh
    obtain ⟨n, hob, hd⟩ := hs.staging.decent hg
    have hn : 0 < n := Nat.pos_of_ne_zero fun hn => by simpa [hp] using hd.buried hn
    have ht := hs.thread_eq ho
    have hfine := (hs.staging.exempt.2 _ ho.1 ht).fine hopen
    obtain ⟨hown, -, hplace⟩ := (hfine.suits r g (living?_eq_some_iff.mpr ⟨n, hn, hob⟩) rfl).fiber p hp
    have hsame : (w.scene g.hub .idle e).fiberD p.value = w.fiberD p.value := rfl
    refine ⟨hown.trans ht, ?_⟩
    unfold Fiber.isActive
    cases hph : (w.fiberD p.value).phase with
    | active =>
      simp only [hsame, hph] at hplace
      obtain ⟨-, -, x, hx⟩ := hplace
      cases hx
    | _ => rfl

/-- What the exit of a thread goes on with. -/
theorem Poised.close (hs : Poised A hand .idle .idle e w) {l : List Task} {t : Task}
    (ht : t.role = .closing) (hl : l.all Task.isFree = true)
    (he : e = .plain ∨ e = Item.edge ((l ++ [t]).map .task ++ w.thread.stack))
    (hf : t.Filed w (w.active - 1) w.thread.stack)
    (hc : ∀ k, (Task.tokensOf (l ++ [t])).count k ≤ hand.count k) : Sound A (w.push (l ++ [t])) := by
  refine hs.push (Mode.upon_idle (g := .idle) (by rw [ht]; rfl) fun u hu => ⟨rfl,
    Task.role_of_isFree (List.all_eq_true.mp hl u hu)⟩) he ?_ hc
  rw [List.map_append, List.append_assoc]
  exact (Item.filed_free hl).append ⟨hf, hs.filed⟩

/-- A thread that exits shuts its hub. -/
theorem Sound.teardown (hs : Sound A w) (hstk : w.thread.stack = .task (.teardown h) :: below) :
    Sound A ((w.setStack below).teardown h) := by
  obtain ⟨hp, hfile⟩ := hs.poise_closing hstk rfl
  change Poised A [] .idle .idle (.closing h) _ at hp
  change World.Shut _ h _ ∨ _ at hfile
  generalize w.setStack below = v at *
  have ho : v.Owned h (v.active - 1) := hfile.elim (·.1) (·.1)
  have ht := hp.thread_eq ho
  unfold World.teardown
  dsimp only
  by_cases hc : (v.hub h).closed = true
  · rw [if_pos hc]
    exact (hp.staging.exempt.1.steady_of_shut hp.covered hp.mode hp.filed ⟨ho, hc⟩).sound
  · obtain ⟨-, rest, hrest⟩ := hfile.resolve_left fun h => hc h.2
    have hsh₀ : Shutting A v h (v.hub h).nodes (Task.tokensOf [] ++ []) v :=
      hp.shutting ho (by simpa using hc)
    obtain ⟨n, drops, u, hfold, hfree, hsh⟩ := hsh₀.all ht rfl 0
    have hclose : Later u (u.modifyHub h fun s => { s with closed := true, nodes := [] }) :=
      .modifyHub h fun _ => ⟨rfl, rfl, fun _ => rfl⟩
    have htu : (u.hub h).thread = u.active := by
      rw [World.hub, hsh.hubs, hsh.beside.active]
      exact ht
    have hst : Staging A none (u.modifyHub h fun s => { s with closed := true, nodes := [] }) :=
      hsh.staging.rehub (fun _ => ⟨rfl, rfl, fun _ => rfl⟩)
        (fun o => { o with nodes := (by simp), disposed := fun _ => rfl })
        (.inr fun r n g hob hh => by
          have hg := greenlet?_eq_some_iff.mpr ⟨n, hob⟩
          refine ⟨?_, fun hm hn => ?_⟩
          · by_contra hf
            cases hsh.left r g hg hh hf
          · exact (hsh.ended r g hg hh hm (by rwa [count_of_some hob])).resolve_left
              (List.not_mem_nil))
        (by simp) (.inl ⟨rfl, htu⟩)
    have hcov : Covered (Task.tokensOf drops)
        (u.modifyHub h fun s => { s with closed := true, nodes := [] }) :=
      (hsh.covered.trade fun k => by simp).modifyHub_of_eq fun _ => ⟨rfl, rfl, rfl⟩
    have hl : Later v (u.modifyHub h fun s => { s with closed := true, nodes := [] }) :=
      hsh.later.trans hclose
    have hshut : (u.modifyHub h fun s => { s with closed := true, nodes := [] }).Shut h
        ((u.modifyHub h fun s => { s with closed := true, nodes := [] }).active - 1) := by
      refine ⟨hsh.beside.active ▸ ho.later hl, ?_⟩
      rw [hub_modifyHub h h _ (by rw [hsh.hubs]; exact ho.1), if_pos rfl]
    have hstk' : (u.modifyHub h fun s => { s with closed := true, nodes := [] }).thread.stack =
        v.thread.stack := hsh.stack
    have h₁ := (hst.steady_of_shut hcov (by rw [hstk']; exact hp.mode) (by
      rw [hstk']
      exact hsh.beside.active ▸ hp.filed.later hl) hshut).stats h fun s =>
        { s with abandoned := s.abandoned + n }
    rw [if_neg hc, foldl_shutNext_modifyHub, hfold]
    have hp₁ : Poised A (Task.tokensOf drops) .idle .idle .plain _ :=
      ⟨h₁.staging, h₁.covered, h₁.mode, h₁.filed⟩
    exact hp₁.close rfl hfree (.inl rfl) 
      ⟨hshut.later (later_modifyStats h _), .task .exitSlots :: rest, hstk'.trans hrest⟩
      fun k => by simp [Task.tokens]

theorem Sound.teardownQueues {n : Nat} (hs : Sound A w)
    (hstk : w.thread.stack = .task (.teardownQueues h n) :: below) :
    Sound A ((w.setStack below).teardownQueues h n) := by
  obtain ⟨hp, hsh, rest, hrest⟩ := hs.poise_closing hstk rfl
  generalize w.setStack below = v at *
  set u : Hub → Hub := fun s => { s with
    deferred := [], foreign := [], outgoing := none, releasing := false, runningFiber := false }
  have hl : Later v (v.modifyHub h u) := .modifyHub' h fun _ => ⟨rfl, rfl, rfl⟩
  have hst : Staging A none (v.modifyHub h u) := hp.staging.exempt.1.modifyHub
    (fun _ => ⟨rfl, rfl, rfl⟩) (fun o => { o with posted := nofun, queued := nofun })
    (fun _ _ _ _ _ hr => hr) (.inl ⟨rfl, hp.thread_eq hsh.1⟩)
  have hcov : Covered (Task.tokensOf (((v.hub h).deferred ++ (v.hub h).foreign).map .drop ++
      Task.dropOutgoing (v.hub h).outgoing)) (v.modifyHub h u) := by
    refine hp.covered.modifyHub (fun s hs' k => ?_) fun hn => absurd hsh.1.1 (by simpa using hn)
    rw [hub_of_some hs']
    have h₁ := count_drops_queued (List.Perm.refl (s.deferred ++ s.foreign)) k
    have h₂ : (u s).supply h k = s.supply h k := by cases k <;> rfl
    rw [h₂, Task.tokensOf_append, Task.tokensOf_dropOutgoing, List.count_append]
    rw [List.flatMap_append, List.count_append] at h₁
    simp only [Hub.tokens, u, List.flatMap_nil, List.append_nil, Option.map_none, Option.getD_none,
      List.count_append]
    omega
  have h₁ : Steady A _ .idle (v.modifyHub h u) := hst.steady_of_shut hcov hp.mode
    (hp.filed.later hl) (hsh.later hl)
  have hp₁ : Poised A _ .idle .idle .plain _ := ⟨h₁.staging, h₁.covered, h₁.mode, h₁.filed⟩
  refine hp₁.close rfl ?_ (.inl rfl) ⟨hsh.later hl, rest, hrest⟩ fun k => by simp [Task.tokens]
  rw [List.all_append, all_isFree_drops, Task.all_isFree_dropOutgoing]
  rfl

theorem Sound.teardownCurrent {n : Nat} (hs : Sound A w)
    (hstk : w.thread.stack = .task (.teardownCurrent h n) :: below) :
    Sound A ((w.setStack below).teardownCurrent h n) := by
  obtain ⟨hp, hsh, rest, hrest⟩ := hs.poise_closing hstk rfl
  generalize w.setStack below = v at *
  have hclaim : 0 < v.demand (.hub h) :=
    Covered.demand_of_thread hp.seated.getElem? (by simp [Thread.tokens, hrest, Item.tokens, Task.tokens])
  have hd := (hp.covered.hub_of_demand (Nat.add_pos_left hclaim _)).2.1
  have hspare := (spare_of_main hsh.1.1 hd).1
  have hpos : 0 < v.count (v.hub h).main := by
    have h₁ := hp.covered (.object (v.hub h).main) rfl
    rw [demand_object, supply_object] at h₁
    omega
  have hc₁ : Covered [.object (v.hub h).main] (v.retain (v.hub h).main) :=
    hp.covered.copy (.inl hspare) List.not_mem_nil
  have hc₂ := hc₁.copy (.inr List.mem_cons_self) (by simp)
  have hst₁ := hp.staging.exempt.1.retain hpos
  have hst₂ := hst₁.retain (r := (v.hub h).main) (by
    obtain ⟨o, ho, hpos⟩ := hc₁.object?_of_mem List.mem_cons_self
    rwa [count_of_some ho])
  generalize hu : (v.retain (v.hub h).main).retain (v.hub h).main = u at hc₂ hst₂
  have hhub : u.hub h = v.hub h := by rw [← hu]; rfl
  have hlu : Later v u := by rw [← hu]; exact (Later.retain _).trans (.retain _)
  have hmine : u.active = v.active ∧ u.thread = v.thread := by rw [← hu]; exact ⟨rfl, rfl⟩
  have hl : Later u (u.modifyHub h fun s => { s with current := s.main }) :=
    .modifyHub' h fun _ => ⟨rfl, rfl, rfl⟩
  have hst : Staging A none (u.modifyHub h fun s => { s with current := s.main }) :=
    hst₂.modifyHub (fun _ => ⟨rfl, rfl, rfl⟩) (fun o => { o with current := o.main })
      (fun _ _ _ _ _ hr => hr) (.inl ⟨rfl, by rw [hhub, hmine.1]; exact hp.thread_eq hsh.1⟩)
  have hcov : Covered (Task.tokensOf [.drop (v.hub h).current, .teardownEnd h (v.hub h).main n])
      (u.modifyHub h fun s => { s with current := s.main }) := by
    refine hc₂.modifyHub (fun s hs' k => ?_) fun hn => absurd (hsh.later hlu).1.1 (by simpa using hn)
    rw [← hhub, hub_of_some hs'] at hd
    rw [← hhub, hub_of_some hs']
    have h₂ : Hub.supply { s with current := s.main } h k = s.supply h k := by cases k <;> rfl
    rw [h₂]
    simp only [Hub.tokens, hd, Task.tokensOf_cons, Task.tokens, Task.tokensOf_nil]
    simp only [Bool.false_eq_true, if_false, List.count_append, List.count_cons, List.count_nil,
      List.append_nil]
    omega
  have hsh' := (hsh.later hlu).later hl
  have h₁ : Steady A _ .idle (u.modifyHub h fun s => { s with current := s.main }) :=
    hst.steady_of_shut hcov (by rw [show (u.modifyHub h _).thread = v.thread from hmine.2]; exact hp.mode)
      (by
        rw [show (u.modifyHub h _).thread = v.thread from hmine.2]
        exact hmine.1 ▸ (hp.filed.later hlu).later hl) (hmine.1.symm ▸ hsh')
  have hp₁ : Poised A _ .idle .idle .plain _ := ⟨h₁.staging, h₁.covered, h₁.mode, h₁.filed⟩
  unfold World.teardownCurrent
  dsimp only
  rw [hu]
  refine hp₁.close (l := [.drop (v.hub h).current]) rfl rfl (.inl rfl) ⟨hmine.1.symm ▸ hsh', ?_⟩
    fun k => Nat.le_refl _
  rw [hub_modifyHub h h _ (hsh.later hlu).1.1, if_pos rfl, hhub]

theorem Sound.teardownEnd {n : Nat} (hs : Sound A w)
    (hstk : w.thread.stack = .task (.teardownEnd h r n) :: below) :
    Sound A ((w.setStack below).teardownEnd h r n) := by
  obtain ⟨hp, hsh, rfl⟩ := hs.poise_closing hstk rfl
  generalize w.setStack below = v at *
  have hl : Later v (v.setState (v.hub h).main .dead) := .setState _ _
  have hst : Staging A none (v.setState (v.hub h).main .dead) := by
    refine hp.staging.exempt.1.modifyGreenlet hl fun k g ho => ?_
    obtain ⟨g', hv, hh⟩ := (hp.staging.hubs h hsh.1.1).main.2 _ ho
    obtain rfl : g = g' := by simpa using hv
    have hd := hp.staging.greenlets _ k g ho
    exact ⟨rfl, ⟨hd.hub, hd.thread, fun p hp => (hd.parent p hp).later hl, fun hm =>
      ⟨(hd.main hm).1, (hd.main hm).2.1, by simp⟩, hd.spent, hd.buried,
      hd.shut, fun hc hm hn => ⟨by simp, (hd.ended hc hm hn).2⟩, hd.listed,
      fun p hp => ⟨(hd.saved p hp).1, (hd.saved p hp).2.later hl⟩⟩, .inl rfl,
      fun _ => .inl ⟨rfl, by rw [hh]; exact hp.thread_eq hsh.1⟩⟩
  have h₁ : Steady A [.object (v.hub h).main] .idle (v.setState (v.hub h).main .dead) :=
    hst.steady_of_shut (hp.covered.restate fun _ => rfl) hp.mode (hp.filed.later hl) (hsh.later hl)
  exact ((h₁.debug _).pushFree rfl rfl fun k => Nat.le_refl _).sound

theorem Staging.moveOut (hs : Staging A none w) {u : Thread → Thread}
    (hu : ∀ t, (u t).home = .gone ∧ (u t).stack = t.stack ∧ (u t).parent = t.parent) :
    Staging A none (w.modifyThread u) := by
  have hl : Later w (w.modifyThread u) := .of_eq rfl rfl rfl
  have hhome (i : Nat) : (w.modifyThread u).homeAt i =
      if i = w.active - 1 then .gone else w.homeAt i := by
    unfold World.homeAt
    simp only [World.modifyThread, Array.getElem?_modify, eq_comm (a := w.active - 1)]
    split
    · subst_vars
      rw [hs.seated.getElem?]
      simp [(hu _).1]
    · rfl
  have hstack (i : Nat) (hi : i ≠ w.active - 1) :
      (w.modifyThread u).stackAt i = w.stackAt i := by
    rw [stackAt_modifyThread hs.seated, if_neg hi]
  have hsize : (w.modifyThread u).threads.size = w.threads.size := by simp [World.modifyThread]
  constructor
  · exact hs.manned.modifyThread fun t => (hu t).2.2
  · exact hs.named
  · intro i hi
    rw [hstack i hi]
    exact ⟨(hs.elsewhere i hi).1, (hs.elsewhere i hi).2.later hl⟩
  · intro r n g ho
    have hd := hs.greenlets r n g ho
    exact hd.later hl rfl id hd.buried fun p hp => (hd.saved p hp).2.later hl
  · exact hs.pins
  · exact hs.held
  · exact fun h hh => (hs.hubs h hh).later hl hsize
  · exact hs.unique
  · intro i h hi
    rw [hhome] at hi
    split at hi
    · cases hi
    · exact (hs.homes i h hi).later hl
  · intro h hh
    rw [hhome]
    split
    · simp
    · exact hs.vacant h hh
  · intro h hh m e hsh
    change if (w.hub h).thread = w.active then _ else
      Mode.of ((w.modifyThread u).stackAt ((w.hub h).thread - 1)) = _ ∧
        e = Item.edge ((w.modifyThread u).stackAt ((w.hub h).thread - 1)) at hsh
    have ht : (w.hub h).thread ≠ w.active := by
      intro ht
      rw [if_pos ht] at hsh
      cases hsh
    have hplace := hs.place_ne hh ht
    rw [if_neg ht, hstack _ hplace] at hsh
    have hst := hs.staged h hh m e (by rw [Shows, if_neg ht]; exact hsh)
    refine ⟨hst.shut, fun ho => ?_, hst.fine⟩
    change (w.modifyThread u).homeAt ((w.hub h).thread - 1) = _ ∨ _
    rw [hhome, if_neg hplace]
    exact hst.home ho

theorem Sound.exitSlots (hs : Sound A w) (hstk : w.thread.stack = .task .exitSlots :: below) :
    Sound A (w.setStack below).exitSlots := by
  obtain ⟨hp, -⟩ := hs.poise_closing hstk rfl
  change Poised A [] .idle .idle .plain _ at hp
  generalize w.setStack below = v at *
  unfold World.exitSlots
  dsimp only
  split
  · exact hp.steady.sound
  · rename_i touched _
    set u : Thread → Thread := fun t => { t with touched, pending := .gone } with hu
    have hstk' : (v.modifyThread u).thread.stack = v.thread.stack := by
      rw [thread_modifyThread hp.seated]
    have hcov : Covered (Obj.tokens v.thread.pending.get?) (v.modifyThread u) := by
      refine hp.covered.modifyThread hp.seated fun k => ?_
      have h₁ : (v.thread.pending.tokens Token.object).count k =
          (Obj.tokens v.thread.pending.get?).count k := rfl
      have h₂ : ((u v.thread).pending.tokens Token.object).count k = 0 := rfl
      simp only [Thread.tokens, List.count_append, List.count_nil] at h₁ h₂ ⊢
      change (Item.tokensOf v.thread.stack).count k + _ + (v.thread.home.tokens Token.hub).count k +
        _ ≤ _
      omega
    have hp₁ := hp.turn (hp.staging.modifyThread (f := u) fun _ => ⟨rfl, rfl⟩) hcov
      (.of_eq rfl rfl rfl) rfl hstk'
    refine hp₁.close rfl ?_ (.inl rfl) trivial fun k => by simp [Task.tokens]
    cases v.thread.pending.get? <;> rfl
  · rename_i touched _
    set u : Thread → Thread := fun t => { t with touched, home := .gone } with hu
    have hl : Later v (v.modifyThread u) := .of_eq rfl rfl rfl
    have hstk' : (v.modifyThread u).thread.stack = v.thread.stack := by
      rw [thread_modifyThread hp.seated]
    have hcov : Covered ((v.thread.home.get?.map Token.hub).toList) (v.modifyThread u) := by
      refine hp.covered.modifyThread hp.seated fun k => ?_
      have h₁ : (v.thread.home.tokens Token.hub).count k =
          ((v.thread.home.get?.map Token.hub).toList).count k := rfl
      have h₂ : ((u v.thread).home.tokens Token.hub).count k = 0 := rfl
      simp only [Thread.tokens, List.count_append, List.count_nil] at h₁ h₂ ⊢
      change (Item.tokensOf v.thread.stack).count k + (v.thread.pending.tokens Token.object).count k +
        _ + _ ≤ _
      omega
    have hhome := homeAt_active hp.seated
    have hst : Staging A none (v.modifyThread u) :=
      hp.staging.exempt.1.moveOut fun _ => ⟨rfl, rfl, rfl⟩
    have hpoised (e : Edge) (he : ∀ h < v.hubs.size, (v.hub h).thread = v.active →
        (v.modifyThread u).Staged A h .idle e) :
        Poised A ((v.thread.home.get?.map Token.hub).toList) .idle .idle e (v.modifyThread u) :=
      ⟨hst.reinstate he, hcov, by rw [hstk']; exact hp.mode, by rw [hstk']; exact hp.filed.later hl⟩
    cases hf : v.thread.home.get? with
    | some h =>
      have hfull : v.thread.home = .full h := by
        cases hv : v.thread.home <;> simp_all [Slot.get?]
      have ho : v.Owned h (v.active - 1) := hp.staging.homes _ h (hhome.trans hfull)
      have hstaged := (hp.staging.edge (.closing h)).exempt.2
      have hp₁ := hpoised (.closing h) fun k hk ht => by
        obtain rfl := hp.staging.unique h k ho.1 hk ((hp.thread_eq ho).trans ht.symm)
        exact ⟨(hstaged h hk ht).shut, fun _ => .inr rfl, (hstaged h hk ht).fine⟩
      rw [hf] at hp₁
      exact hp₁.push rfl (.inr rfl)
        ⟨.inr ⟨ho.later hl, _, rfl⟩, ho.later hl, trivial, hp₁.filed⟩ fun k => Nat.le_refl _
    | none =>
      have hp₁ := hpoised .plain fun k hk ht => by
        refine staged_of_closed (Bool.not_eq_false _ ▸ fun hopen => ?_) _
        rcases (hp.staging.exempt.2 k hk ht).home hopen with hfull | he
        · rw [ht, hhome] at hfull
          rw [hfull] at hf
          cases hf
        · cases he
      rw [hf] at hp₁
      exact hp₁.close (l := []) rfl rfl (.inl rfl) trivial fun k => Nat.le_refl _

end World

end Switchyard
