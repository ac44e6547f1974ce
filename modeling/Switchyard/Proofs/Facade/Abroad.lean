import Mathlib.Data.List.Perm.Subperm
import Switchyard.Proofs.Facade.Run
import Switchyard.Proofs.Motion.Apart
import Switchyard.Proofs.Motion.Graves

/-!
# What threads do to each other

A thread works on its own hub, on the greenlets of that hub and on their stacks, whatever handles
its scripts hold. The hub of another thread gets greenlets sent that were dropped, and strikes off
those that had no stack. Nothing but `set_parent` reaches a greenlet of another thread that stays.
-/

namespace Switchyard

open World

private theorem eq_filter_of_sublist {α : Type} {l l' : List α} {p : α → Bool} (h : l'.Sublist l)
    (hl : l.Nodup) (hp : ∀ a ∈ l, p a = true ↔ a ∈ l') : l' = l.filter p := by
  have hs : l'.filter p = l' := List.filter_eq_self.mpr fun a ha => (hp a (h.subset ha)).mpr ha
  refine (hs ▸ h.filter p).eq_of_length_le
    (List.subperm_of_subset (hl.filter p) fun a ha => ?_).length_le
  obtain ⟨ha, hpa⟩ := List.mem_filter.mp ha
  exact (hp a ha).mp hpa

/-- What a thread may do that leaves the hub `k` alone. -/
def Licence.abroad (w : World) (k : HubId) (links : Ref → Prop) : Licence where
  leaks := True
  sheds _ := True
  clears := True
  links := links
  drops _ := True
  hubs h := h ≠ k
  greenlets q := ∀ g, w.greenlet? q = some g → g.hub ≠ k
  fibers f := ∀ q g p, w.greenlet? q = some g → g.fiber = some p → p.value = f → g.hub ≠ k

namespace World

variable {A : Prop} {w w₀ w' : World} {k h : HubId} {q r : Ref} {f : FiberId} {t : Task}
  {below : List (Item Task)} {hand : List Token} {m : Mode} {e : Edge} {links : Ref → Prop}
  {x : Option (Mode × Edge)} {tr : List World}

/-- The hub is open, and another thread than its own is at work. -/
structure Abroad (w : World) (k : HubId) : Prop where
  isOpen : (w.hub k).closed = false
  thread : (w.hub k).thread ≠ w.active

theorem Abroad.ne (ha : w.Abroad k) (hw : w.Seated) (ho : w.Owned h (w.active - 1)) : h ≠ k := by
  rintro rfl
  exact ha.thread (ho.2.trans (Nat.sub_add_cancel hw.1))

namespace Staging

theorem abroad_of_ownFiber (hs : Staging A x w) (hb : w.Belongs q h) (hn : h ≠ k)
    (hf : w.ownFiber q = some f) : (Licence.abroad w k links).fibers f := by
  obtain ⟨p, hp, hg⟩ := Option.bind_eq_some_iff.mp hf
  have hv : p.value = f := by
    unfold Pinned.get? at hg
    split at hg
    · exact Option.some.inj hg
    · cases hg
  have hq : w.greenlet? q = some (w.greenlet q) := by
    cases hq : w.greenlet? q with
    | none =>
      rw [greenlet_of_none hq] at hp
      cases hp
    | some g => rw [greenlet_of_some hq]
  intro u g p' hu hp' he hk
  obtain rfl : u = q := hs.pins u q g _ p' p hu hq hp' hp (he.trans hv.symm)
  obtain ⟨n, ho⟩ := greenlet?_eq_some_iff.mp hu
  obtain ⟨g', hg', hh⟩ := hb.greenlet? ho
  obtain rfl := Option.some.inj (hu.symm.trans hg')
  exact hn (hh.symm.trans hk)

theorem abroad_of_taken {y : Mode × Edge} (hs : Staging A (some y) w)
    (ht : (w.fiberD f).isTaken = true) : (Licence.abroad w k links).fibers f := by
  rintro u g p hu hp rfl
  rw [hs.whole hu hp] at ht
  cases ht

theorem abroad_of_turn (hs : Staging A (some (m, e)) w) (hc : Covered hand w) {m₁ : Mode}
    (hm : Mode.of w.thread.stack = some m₁) (hf : Item.Filed w (w.active - 1) w.thread.stack)
    (ha : w.Abroad k) (h₁ : m₁.ground.turn? = some (r, f)) (hturn : m.ground.turn? = some (r, f)) :
    (Licence.abroad w k links).fibers f := by
  obtain ⟨h, g, ho, -, -, hl, hh, hfib, -⟩ := hs.exists_seat hc hm hf h₁ hturn
  refine hs.abroad_of_ownFiber (belongs_of_greenlet? (greenlet?_of_living hl))
    (hh ▸ ha.ne hs.seated ho) ?_
  rw [World.ownFiber, greenlet_of_some (greenlet?_of_living hl), hfib]
  simp [Pinned.get?]

theorem isTaken_of_off {g : Ground} {x : Spot} (hs : Staging A (some (⟨g, .off r f x⟩, e)) w)
    {m₁ : Mode} (hm : Mode.of w.thread.stack = some m₁)
    (hf : Item.Filed w (w.active - 1) w.thread.stack) (hn : m₁ ≠ .idle) :
    (w.fiberD f).isTaken = true := by
  obtain ⟨h, ho⟩ : ∃ h, w.Owned h (w.active - 1) := by
    by_contra hn'
    exact hn (Mode.idle_of_unowned hm hf (not_exists.mp hn'))
  exact ((hs.busy ho (by rintro ⟨⟩)).2.off r f x rfl).1

theorem abroad_of_base {m₁ : Mode} {forced : Bool} (hs : Staging A (some (m, .plain)) w)
    (hc : Covered hand w) (hm : Mode.of w.thread.stack = some m₁)
    (hi : Mode.step (.base f forced) m₁ = some m)
    (hf : Item.Filed w (w.active - 1) w.thread.stack) (ha : w.Abroad k) :
    (Licence.abroad w k links).fibers f := by
  rcases Mode.of_step_base hi with ⟨-, r, rfl, rfl⟩ | ⟨-, g, r, rfl, rfl⟩
  · exact hs.abroad_of_turn hc hm hf ha (r := r) rfl rfl
  · exact hs.abroad_of_taken (hs.isTaken_of_off hm hf (by rintro ⟨⟩))

end Staging

private theorem Steady.parts (hs : Steady A hand m w) (ha : w.Abroad k) :
    (Licence.abroad w k links).Parts w r where
  drops := trivial
  found := .inl trivial
  work g hg hn := by
    have hne : g.hub ≠ k := by
      rintro rfl
      obtain ⟨n, -, hd⟩ := hs.staging.decent hg
      have hl := hs.staging.lives hs.covered hd.hub ha.isOpen
      have ht : g.thread ≠ w.active := fun h => ha.thread (hd.thread.symm.trans h)
      simp [isAbroad, hl, ht, ha.isOpen] at hn
    refine ⟨hne, fun g' hg' => ?_, fun f hf =>
      hs.staging.abroad_of_ownFiber (belongs_of_greenlet? hg) hne hf⟩
    obtain rfl := Option.some.inj (hg.symm.trans hg')
    exact hne

private theorem abroad_hubs (hw : w.Seated) (ha : w.Abroad k)
    (ht : t.Filed w (w.active - 1) below) (hf : Item.Filed w (w.active - 1) below)
    (hstk : w.thread.stack = below) (hwk : w.WorksOn t h) : h ≠ k := by
  rcases hwk with hh | ⟨-, f, rest, hr⟩
  · refine ha.ne hw ?_
    cases t with
    | leaveHub | drain | suspend | endDriving => cases hh; exact ht
    | teardown => cases hh; exact ht.elim (·.1) (·.1)
    | teardownQueues | teardownCurrent => cases hh; exact ht.1.1
    | dropHubFields => cases hh; exact ht.1
    | release | released | switch | drive | driveTarget | driveRegister | driveResume
    | driveBack => cases hh; exact ht.1
    | _ => cases hh
  · rw [← hstk, hr] at hf
    exact ha.ne hw hf.1

private theorem abroad_of_belongs (hb : w.Belongs q h) (hn : h ≠ k) :
    (Licence.abroad w k links).greenlets q := fun g hg => by
  obtain ⟨n, ho⟩ := greenlet?_eq_some_iff.mp hg
  obtain ⟨g', hg', hh⟩ := hb.greenlet? ho
  obtain rfl := Option.some.inj (hg.symm.trans hg')
  exact hh ▸ hn

private theorem Staging.abroad_greenlets (hs : Staging A x w) (ha : w.Abroad k)
    (ht : t.Filed w (w.active - 1) below) (hwk : w.WorksWith t q) :
    (Licence.abroad w k links).greenlets q := by
  have own {h : HubId} (ho : w.Owned h (w.active - 1)) (hb : w.Belongs q h) :
      (Licence.abroad w k links).greenlets q := abroad_of_belongs hb (ha.ne hs.seated ho)
  cases t with
  | release h r =>
    obtain rfl : q = r := hwk
    refine own ht.1 ⟨ht.2.1.1, fun o ho => ?_⟩
    obtain ⟨g, hv, hh, -⟩ := ht.2.1.2 o ho
    exact ⟨g, hv, hh⟩
  | teardownEnd h main n =>
    obtain rfl : q = main := hwk
    exact own ht.1.1 (ht.2 ▸ (hs.hubs h ht.1.1.1).main)
  | driveBack h r f =>
    obtain rfl : q = r := hwk
    exact own ht.1 ht.2
  | driveTarget h r _ | driveRegister h r _ =>
    rcases hwk with rfl | rfl
    · exact own ht.1 ht.2
    · exact own ht.1 (hs.hubs h ht.1.1).current
  | resumed h =>
    obtain rfl : q = (w.hub h).current := hwk
    exact own ht (hs.hubs h ht.1).current
  | teardown h =>
    have ho : w.Owned h (w.active - 1) := ht.elim (·.1) (·.1)
    exact own ho ((hs.hubs h ho.1).nodes q hwk)
  | _ => cases hwk

/-- The fibers that a task works on are those of the active thread, unless it drops a handle. -/
private theorem Sound.abroad_fibers (hs : Sound A w) (hstk : w.thread.stack = .task t :: below)
    (ha : (w.setStack below).Abroad k) (hu : ∀ f, t ≠ .unshare f) (hp : ∀ p, t ≠ .dropPinned p)
    (hwk : (w.setStack below).Moves t f) :
    (Licence.abroad (w.setStack below) k links).fibers f := by
  obtain ⟨m₀, m, h₀, hi, hst, hc, hf, ht⟩ := hs.pop hstk
  have hstk' := stack_setStack hs.seated below
  have hact : (w.setStack below).active = w.active := rfl
  generalize w.setStack below = v at *
  rw [← hact] at hf ht
  rw [← hstk'] at h₀ hf
  have own {h : HubId} {q : Ref} (ho : v.Owned h (v.active - 1)) (hb : v.Belongs q h)
      (hq : v.ownFiber q = some f) : (Licence.abroad v k links).fibers f :=
    hst.abroad_of_ownFiber hb (ha.ne hst.seated ho) hq
  cases t with
  | unshare q => exact absurd rfl (hu q)
  | dropPinned p => exact absurd rfl (hp p)
  | settle q =>
    obtain rfl : f = q := hwk
    exact hst.abroad_of_taken ht.2
  | driveResume h target q =>
    obtain rfl : f = q := hwk
    obtain ⟨rfl, rfl⟩ := Mode.of_step_ground hi (g := .starting target f) rfl
    have hpos : 0 < v.count target := by
      have := hc (.object target) rfl
      rw [supply_object] at this
      simp only [Task.tokens, List.count_cons_self] at this
      omega
    obtain ⟨-, -, g, hl, hh, hfib, -⟩ := hst.seat ht.1 ht.2 hpos rfl
    refine own ht.1 ht.2 ?_
    rw [World.ownFiber, greenlet_of_some (greenlet?_of_living hl), hfib]
    simp [Pinned.get?]
  | release h r =>
    refine own ht.1 ⟨ht.2.1.1, fun o ho => ?_⟩ hwk
    obtain ⟨g, hv, hh, -⟩ := ht.2.1.2 o ho
    exact ⟨g, hv, hh⟩
  | driveTarget h r p => exact own ht.1 ht.2 hwk
  | teardown h =>
    obtain ⟨r, hr, hq⟩ := hwk
    have ho : v.Owned h (v.active - 1) := ht.elim (·.1) (·.1)
    exact own ho ((hst.hubs h ho.1).nodes r hr) hq
  | suspend h q =>
    obtain ⟨r, rfl, rfl⟩ := Mode.of_step_suspend hi rfl
    obtain ⟨above, rest, -, hsplit, -⟩ := Mode.of_on h₀
    have hq : v.topFiber = some q := by rw [World.topFiber, hsplit]; rfl
    obtain rfl := Option.some.inj (hq.symm.trans hwk)
    exact hst.abroad_of_turn hc h₀ hf ha (r := r) rfl rfl
  | fail p =>
    obtain ⟨forced, rest, hr⟩ := hwk
    obtain ⟨m₁, h₁, hb⟩ := Mode.of_cons (hr ▸ h₀)
    rcases Mode.of_step_base hb with ⟨-, r, rfl, rfl⟩ | ⟨-, g, r, rfl, rfl⟩
    · cases hi
    · cases hi
      exact hst.abroad_of_taken (hst.isTaken_of_off h₀ hf (by rintro ⟨⟩))
  | _ => cases hwk

/-- The greenlet at `q` is about to be put under another one. -/
def Relinks (w : World) (q : Ref) : Prop :=
  ∃ t below, w.thread.stack = .task t :: below ∧ (w.setStack below).linked t = some q

private theorem Sound.admits (hs : Sound A w) (hstk : w.thread.stack = .task t :: below)
    (hof : w.OnFacade) (ha : w.Abroad k) (hu : ∀ f, t ≠ .unshare f) (hp : ∀ p, t ≠ .dropPinned p) :
    (Licence.abroad w k w.Relinks).Admits (w.setStack below) t := by
  obtain ⟨m₀, m, -, -, hst, -, hf, ht⟩ := hs.pop hstk
  have hvs := stack_setStack hs.seated below
  have hav : (w.setStack below).Abroad k := ⟨ha.isOpen, ha.thread⟩
  have hgrants : (Licence.abroad w k w.Relinks).Grants (w.setStack below) t :=
    ⟨fun _ => .inl trivial, fun _ => trivial, fun q hq => ⟨t, below, hstk, hq⟩⟩
  refine ⟨hgrants, fun h hh => abroad_hubs hst.seated hav ht hf hvs hh,
    fun q hq => hst.abroad_greenlets hav ht hq,
    fun f hf => hs.abroad_fibers hstk hav hu hp hf, fun r hr => ?_,
    fun _ => .inl trivial, fun _ _ => trivial, .inl fun k => ?_, fun hi => ?_⟩
  · subst hr
    obtain ⟨m, -, hsteady, -⟩ := hs.pop_code hstk rfl
    exact hsteady.parts hav
  · cases k <;> trivial
  · cases t with
    | steps rest =>
      cases rest with
      | nil => cases hi
      | cons st rest =>
        have hof := hof st rest below hstk
        simp [Task.isInner, hof] at hi
    | _ => cases hi

/-- From `w` to `w'` others leave the hub `k` alone, with its thread and the stacks of its
greenlets. -/
structure Spared (links : Ref → Prop) (k : HubId) (w w' : World) : Prop
    extends Apart links k w w' where
  thread : ∀ t, w.threads[(w.hub k).thread - 1]? = some t →
    ∃ t', w'.threads[(w.hub k).thread - 1]? = some t' ∧ t.Alike t'
  fibers : ∀ q g p, w.living? q = some g → g.hub = k → g.fiber = some p → 0 < w'.count q →
    (w.fiberD p.value).Alike (w'.fiberD p.value)

namespace Spared

variable {w₁ : World} {links' : Ref → Prop}

theorem thread_hub (a : Apart links k w w') : (w'.hub k).thread = (w.hub k).thread := by
  obtain ⟨sent, nodes, he, -⟩ := a.hub
  rw [he]

theorem closed_hub (a : Apart links k w w') : (w'.hub k).closed = (w.hub k).closed := by
  obtain ⟨sent, nodes, he, -⟩ := a.hub
  rw [he]

theorem refl (w : World) : Spared links k w w :=
  ⟨.refl w, fun t ht => ⟨t, ht, .refl t⟩, fun _ _ _ _ _ _ _ => .refl _⟩

theorem trans (s : Spared links k w w₁) (s' : Spared links k w₁ w') : Spared links k w w' where
  toApart := s.toApart.trans s'.toApart
  thread t ht := by
    obtain ⟨t₁, ht₁, ha⟩ := s.thread t ht
    obtain ⟨t₂, ht₂, ha'⟩ := s'.thread t₁ (by rwa [thread_hub s.toApart])
    exact ⟨t₂, by rwa [thread_hub s.toApart] at ht₂, ha.trans ha'⟩
  fibers q g p hg hk hp hn := by
    have hlt : q < w₁.heap.size := Nat.lt_of_lt_of_le (lt_size_of_living hg) s.heap
    have hn₁ : 0 < w₁.count q := Nat.pos_of_ne_zero fun h₀ => by
      rw [s'.unused q hlt h₀] at hn
      exact absurd hn (Nat.lt_irrefl 0)
    rcases s.greenlets q g hg hk with ⟨h₀, -⟩ | ⟨u, hu, -⟩
    · exact absurd h₀ (Nat.ne_of_gt hn₁)
    · exact (s.fibers q g p hg hk hp hn₁).trans (s'.fibers q _ p hu hk hp hn)

theorem mono (s : Spared links k w w') (hl : ∀ q, links q → links' q) :
    Spared links' k w w' where
  heap := s.heap
  hubs := s.hubs
  hub := s.hub
  unused := s.unused
  known := s.known
  greenlets q g hg hk := by
    rcases s.greenlets q g hg hk with h₀ | ⟨p, hp, h⟩
    · exact .inl h₀
    · exact .inr ⟨p, hp, h.imp_right (hl q)⟩
  thread := s.thread
  fibers := s.fibers

theorem motion {L : Licence} {hand' : List Token} (m : Motion L hand w hand' w')
    (hs : Sane hand w) (hst : ∀ q g p, w.greenlet? q = some g → g.fiber = some p →
      p.value < w.fibers.size) (ha : w.Abroad k) (hi : (w.hub k).thread - 1 ≠ w.active - 1)
    (hn : w.thread.home ≠ .full k) (hh : ¬ L.hubs k)
    (hg : ∀ q g, w.greenlet? q = some g → g.hub = k → ¬ L.greenlets q)
    (hf : ∀ q g p, w.greenlet? q = some g → g.hub = k → g.fiber = some p →
      ¬ L.fibers p.value) : Spared L.links k w w' where
  toApart := m.apart hs (hub_lt_of_open ha.isOpen) hn hh hg
  thread t ht := (m.aside _ t hi ht).2
  fibers q g p hq hk hp _ := by
    have hq := greenlet?_of_living hq
    have hs := Array.getElem?_eq_getElem (hst q g p hq hp)
    rw [fiberD_of_some hs, fiberD_of_some (m.spares (hf q g p hq hk hp) hs)]
    exact .refl _

theorem of_thread {f : Thread → Thread} (hh : w'.hubs = w.hubs) (hp : w'.heap = w.heap)
    (hf : w'.fibers = w.fibers) (ht : w'.threads = w.threads ∨
      w'.threads = (w.modifyThread f).threads ∧ (w.hub k).thread - 1 ≠ w.active - 1) :
    Spared links k w w' where
  toApart := .of_eq hh hp
  thread t h := by
    rcases ht with ht | ⟨ht, hi⟩
    · exact ⟨t, ht ▸ h, .refl t⟩
    · rw [ht]
      exact ((Aside.modifyThread f) t hi h).2
  fibers q g p _ _ _ _ := by
    rw [fiberD_eq, fiberD_eq, hf]
    exact .refl _

private theorem alike_modifyFiber {g : Fiber Task → Fiber Task} {j : FiberId}
    (hg : (∀ s : Fiber Task, s.Alike (g s)) ∨ j ≠ f) :
    (w.fiberD j).Alike ((w.modifyFiber f g).fiberD j) := by
  have hd : (w.modifyFiber f g).fiberD j =
      ((if f = j then w.fibers[j]?.map g else w.fibers[j]?).getD { phase := .taken }) := by
    rw [fiberD_eq, World.modifyFiber]
    simp only [Array.getElem?_modify]
  rw [hd, fiberD_eq]
  split
  · rename_i he
    cases w.fibers[j]? with
    | none => exact .refl _
    | some s => exact (hg.resolve_right fun hn => hn he.symm) s
  · exact .refl _

theorem modifyFiber {g : Fiber Task → Fiber Task} (hg : (∀ s : Fiber Task, s.Alike (g s)) ∨
      ∀ r u p, w.greenlet? r = some u → u.fiber = some p → p.value ≠ f) :
    Spared links k w (w.modifyFiber f g) where
  toApart := .of_eq rfl rfl
  thread t ht := ⟨t, ht, .refl t⟩
  fibers q u p hq _ hp _ := alike_modifyFiber (hg.imp_right fun hn =>
    hn q u p (greenlet?_of_living hq) hp)

theorem unshare (hs : Staging A x w) (hc : Covered (.fiber f :: hand) w) :
    Spared links k w (w.unshare f) := by
  have hh (s : Fiber Task) : s.Alike { s with handles := s.handles - 1 } := ⟨rfl, rfl, rfl, rfl, rfl⟩
  rcases (hs.unshare_eq hc).2 with he | ⟨he, hn⟩
  · rw [he]
    exact modifyFiber (.inl hh)
  · rw [he]
    exact ((modifyFiber (.inl hh)).trans (modifyFiber (.inr hn))).trans (modifyFiber (.inr hn))

end Spared

private theorem Rested.next_spared {L : Licence} (hr : w.Rested) (hv : Advance L w)
    (hst : ∀ q g p, w.greenlet? q = some g → g.fiber = some p → p.value < w.fibers.size)
    (ha : w.Abroad k) (hi : (w.hub k).thread - 1 ≠ w.active - 1) (hn : w.thread.home ≠ .full k)
    (hl : L.leaks) (hh : ¬ L.hubs k)
    (hg : ∀ q g, w.greenlet? q = some g → g.hub = k → ¬ L.greenlets q)
    (hf : ∀ q g p, w.greenlet? q = some g → g.hub = k → g.fiber = some p →
      ¬ L.fibers p.value) : Spared L.links k w w.next := by
  cases hv with
  | yield i _ _ _ he =>
    rw [he]
    exact .of_thread (f := id) rfl rfl rfl (.inl rfl)
  | leaving _ _ he =>
    rw [he]
    exact .of_thread rfl rfl rfl (.inr ⟨rfl, hi⟩)
  | land _ hs m => exact .motion m hs hst ha hi hn hh hg hf
  | @task t below v ht hv hs m m' =>
    have m'' : Motion L [] v [] w.next := (m.trading (.of_leaks hl (fun r => .inr (t.count_grave_handed r))
      fun k _ => t.handed_le k)).trans m'
    rcases hv with rfl | ⟨h, -, hlh, rfl⟩
    · exact .motion m'' hs hst ha hi hn hh hg hf
    · have hne : h ≠ k := fun he => hh (he ▸ hlh)
      have hk : (w.closing h).hub k = w.hub k := by
        rcases hub_modifyHub_cases (w := w) (h := k) h fun s => { s with closed := true, nodes := [] }
          with he | ⟨he, -⟩
        · exact he
        · exact absurd he hne
      have hc : Spared L.links k w (w.closing h) :=
        ⟨.modifyHub (.inl hne), fun t ht => ⟨t, ht, .refl t⟩, fun _ _ _ _ _ _ _ => .refl _⟩
      refine hc.trans (.motion m'' hs hst ⟨by rw [hk]; exact ha.isOpen, by rw [hk]; exact ha.thread⟩
        (by rw [hk]; exact hi) hn hh hg hf)

/-- A step of another thread leaves an open hub alone. -/
theorem Sound.spared (hs : Sound A w) (hr : w.Rested) (hw : w.Manned) (hh : w.isHalted = false)
    (hof : w.OnFacade) (ha : w.Abroad k) : Spared w.Relinks k w w.next := by
  obtain ⟨⟨m, hm, hst⟩, hc, hf⟩ := hs
  have hs : Sound A w := ⟨⟨m, hm, hst⟩, hc, hf⟩
  have hi : (w.hub k).thread - 1 ≠ w.active - 1 :=
    hst.place_ne (hub_lt_of_open ha.isOpen) ha.thread
  have drops {t : Task} {below : List (Item Task)} {f : FiberId}
      (hstk : w.thread.stack = .task t :: below) (ht : t.role = .code)
      (hc : t.tokens = [.fiber f]) : Spared w.Relinks k w ((w.setStack below).unshare f) := by
    obtain ⟨m, -, hsteady, -⟩ := hs.pop_code hstk ht
    have h₁ : Spared w.Relinks k w (w.setStack below) := .of_thread rfl rfl rfl (.inr ⟨rfl, hi⟩)
    exact h₁.trans (.unshare hsteady.staging (hc ▸ hsteady.covered))
  by_cases hd : ∃ t below f, w.thread.stack = .task t :: below ∧
      (t = .unshare f ∨ ∃ p, t = .dropPinned p ∧ p.value = f)
  · obtain ⟨t, below, f, hstk, hd⟩ := hd
    have hn : w.next = (w.setStack below).runTask t := by
      unfold World.next
      rw [hstk]
    rw [hn]
    rcases hd with rfl | ⟨p, rfl, rfl⟩
    · exact drops hstk rfl rfl
    · change Spared _ _ _ ((w.setStack below).dropPinned p)
      unfold World.dropPinned
      split
      · rename_i f hg
        obtain rfl : p.value = f := by
          unfold Pinned.get? at hg
          split at hg
          · exact Option.some.inj hg
          · cases hg
        exact drops hstk rfl rfl
      · exact .of_thread rfl rfl rfl (.inr ⟨rfl, hi⟩)
  · refine hr.next_spared (L := .abroad w k w.Relinks)
      (hr.advance hw hh hof.inSlots (fun t below hstk => hs.admits hstk hof ha
        (fun f he => hd ⟨t, below, f, hstk, .inl he⟩)
        (fun p he => hd ⟨t, below, p.value, hstk, .inr ⟨p, he, rfl⟩⟩)) fun f forced below hstk => ?_)
      (fun q g p hq hp => ?_) ha hi (fun hn => ?_) trivial (fun h => h rfl)
      (fun q g hq hk h => h g hq hk) fun q g p hq hk hp h => h q g p hq hp rfl hk
    · obtain ⟨m₀, m, h₀, hb, hst, hc, hf⟩ := hs.pop_base hstk
      rw [← stack_setStack hs.seated below] at h₀
      refine ⟨hst.abroad_of_base (w := w.setStack below) hc h₀ hb ?_ ⟨ha.isOpen, ha.thread⟩,
        .inl fun c => by cases c <;> trivial⟩
      rw [stack_setStack hs.seated below]
      exact hf
    · obtain ⟨n, -, hd⟩ := hst.decent hq
      exact (hd.saved p hp).1
    · exact ha.ne hs.seated (hst.homes _ k ((homeAt_active hs.seated).trans hn)) rfl

def Reparents (w : World) (q : Ref) : Prop :=
  (∃ name new rest below, w.thread.stack = .task (.steps (.setParent name new :: rest)) :: below ∧
    ((w.setStack below).peek name).1 = some q) ∧ w.next.parent q ≠ w.parent q

theorem Relinks.named (h : w.Relinks q) : ∃ name new rest below,
    w.thread.stack = .task (.steps (.setParent name new :: rest)) :: below ∧
      ((w.setStack below).peek name).1 = some q := by
  obtain ⟨t, below, hstk, hq⟩ := h
  cases t with
  | steps rest =>
    cases rest with
    | nil => cases hq
    | cons st rest =>
      cases st with
      | setParent name new => exact ⟨name, new, rest, below, hstk, hq⟩
      | _ => cases hq
  | _ => cases hq

theorem parent_of_living {g : Greenlet} (hg : w.living? q = some g) : w.parent q = g.parent := by
  rw [World.parent, greenlet_of_some (greenlet?_of_living hg)]

theorem Spared.reparents (s : Spared w.Relinks k w w.next) :
    Spared (fun u => w.Reparents u) k w w.next where
  heap := s.heap
  hubs := s.hubs
  hub := s.hub
  unused := s.unused
  known := s.known
  greenlets u g hg hk := by
    rcases s.greenlets u g hg hk with h₀ | ⟨p, hp, hl⟩
    · exact .inl h₀
    · refine .inr ⟨p, hp, or_iff_not_imp_left.mpr fun hn => ⟨(hl.resolve_left hn).named, ?_⟩⟩
      rwa [parent_of_living hp, parent_of_living hg]
  thread := s.thread
  fibers := s.fibers

/-- The object at `q` was freed, or a stack is about to, or a step from `tr` has left it behind. -/
def isDone (tr : List World) (w : World) (q : Ref) : Bool :=
  (w.object? q).isNone || w.buries q || (leaked tr).contains q

/-- Other threads take their steps between `w` and `w'`, those from the worlds of `tr`. The hub `k`
gets greenlets sent and strikes off those that are done with, which had no stack. The greenlets that
it keeps are at most under other ones than before. -/
structure Undisturbed (tr : List World) (k : HubId) (w w' : World) : Prop where
  hub : ∃ sent, w'.hub k = { w.hub k with
    foreign := (w.hub k).foreign ++ sent
    nodes := (w.hub k).nodes.filter fun q => !w'.isDone tr q }
  freed : ∀ q ∈ (w.hub k).nodes, w'.isDone tr q = true → (w.greenlet q).fiber = none
  greenlets : ∀ q g, w.living? q = some g → g.hub = k → w'.isDone tr q = false → ∃ p,
    w'.living? q = some { g with parent := p } ∧ (p = g.parent ∨ ∃ v ∈ tr, v.Reparents q)
  fibers : ∀ q g f, w.living? q = some g → g.hub = k → g.fiber = some f →
    w'.isDone tr q = false → (w.fiberD f.value).Alike (w'.fiberD f.value)
  stack : w'.stackAt ((w.hub k).thread - 1) = w.stackAt ((w.hub k).thread - 1)

theorem Enrolled.living (h : w.Enrolled k q) :
    ∃ g, w.living? q = some g ∧ g.isMain = false ∧ g.hub = k := by
  obtain ⟨n, g, ho, hn, hm, hk⟩ := h
  exact ⟨g, living?_eq_some_iff.mpr ⟨n, hn, ho⟩, hm, hk⟩

/-- What has lost its last reference on the way is done with. -/
theorem Run.isDone_iff {tr₀ : List World} {g : Greenlet} (hs : w₀.Starts) (h₀ : Run w₀ tr₀ w)
    (h : Run w tr w') (hm : ∀ v ∈ tr ++ tr₀, v.InSlots) (hq : w.living? q = some g) :
    w'.isDone tr q = true ↔ w'.count q = 0 := by
  have hu := (h₀.append h).unreferred_iff hs hm (r := q)
  have hn : q ∉ leaked tr₀ := fun hl => by
    obtain ⟨v, ho⟩ := (h₀.unreferred_iff hs fun v hv => hm v (List.mem_append_right _ hv)).mpr (.inr hl)
    obtain ⟨n, hn, hq⟩ := living?_eq_some_iff.mp hq
    rw [ho] at hq
    cases hq
    exact Nat.lt_irrefl 0 hn
  have hl : q ∈ leaked (tr ++ tr₀) ↔ q ∈ leaked tr := by
    rw [leaked, List.filterMap_append, List.mem_append]
    exact or_iff_left hn
  rw [hl] at hu
  unfold isDone
  cases ho : w'.object? q with
  | none => simp [World.count, ho]
  | some o =>
    obtain ⟨n, v⟩ := o
    rw [count_of_some ho, Option.isNone_some, Bool.false_or, Bool.or_eq_true,
      List.contains_iff_mem, ← hu, ho]
    simp

theorem Spared.keepsWithin (s : Spared (fun u => ∃ v ∈ tr, v.Reparents u) k w w')
    (hr : w.Registry) (hr' : w'.Registry) (hk : (w.hub k).closed = false)
    (ht : (w.hub k).thread - 1 < w.threads.size)
    (hd : ∀ q g, w.living? q = some g → (w'.isDone tr q = true ↔ w'.count q = 0)) :
    Undisturbed tr k w w' where
  hub := by
    have hk' : (w'.hub k).closed = false := by rw [closed_hub s.toApart, hk]
    obtain ⟨sent, nodes, he, hsub⟩ := s.hub
    have hn : (w'.hub k).nodes = nodes := by rw [he]
    refine ⟨sent, ?_⟩
    rw [he, eq_filter_of_sublist hsub (hr.nodup k) fun q hq => ?_]
    obtain ⟨g, hg, hm, hh⟩ := ((hr.mem k q hk).mp hq).living
    rw [← hn, hr'.mem k q hk', Bool.not_eq_true', ← Bool.not_eq_true, hd q g hg]
    constructor
    · intro hpos
      rcases s.greenlets q g hg hh with ⟨h₀, -⟩ | ⟨p, hp, -⟩
      · exact absurd h₀ hpos
      · obtain ⟨n, hn, ho⟩ := living?_eq_some_iff.mp hp
        exact ⟨n, _, ho, hn, hm, hh⟩
    · rintro ⟨n, g, ho, hn, -⟩
      rw [count_of_some ho]
      exact Nat.ne_of_gt hn
  freed q hq hx := by
    obtain ⟨g, hg, hm, hh⟩ := ((hr.mem k q hk).mp hq).living
    have h₀ := (hd q g hg).mp hx
    rw [greenlet_of_some (greenlet?_of_living hg)]
    rcases s.greenlets q g hg hh with ⟨-, hf⟩ | ⟨p, hp, -⟩
    · exact hf hm
    · obtain ⟨n, hn, ho⟩ := living?_eq_some_iff.mp hp
      rw [count_of_some ho] at h₀
      exact absurd h₀ (Nat.ne_of_gt hn)
  greenlets q g hg hh hx := by
    rcases s.greenlets q g hg hh with ⟨h₀, -⟩ | hp
    · rw [(hd q g hg).mpr h₀] at hx
      cases hx
    · exact hp
  fibers q g f hg hh hf hx := s.fibers q g f hg hh hf <| Nat.pos_of_ne_zero fun h₀ => by
    rw [(hd q g hg).mpr h₀] at hx
    cases hx
  stack := by
    obtain ⟨t', ht', ha⟩ := s.thread _ (Array.getElem?_eq_getElem ht)
    rw [stackAt, stackAt, ht', Array.getElem?_eq_getElem ht]
    exact ha.stack

/-- Steps of other threads leave an open hub alone. -/
theorem Run.spared {tr₀ : List World} (hs : w₀.Starts) (h₀ : Run w₀ tr₀ w)
    (hf₀ : ∀ v ∈ tr₀, v.OnFacade) (h : Run w tr w') (hf : ∀ v ∈ tr, v.OnFacade)
    (hk : (w.hub k).closed = false) (ha : ∀ v ∈ tr, v.active ≠ (w.hub k).thread) :
    Spared (fun u => ∃ v ∈ tr, v.Reparents u) k w w' := by
  induction h with
  | start => exact .refl w
  | @step tr v h hh ih =>
    have hft : ∀ u ∈ tr, u.OnFacade := fun u hu => hf u (List.mem_cons_of_mem v hu)
    have ih := ih hft fun u hu => ha u (List.mem_cons_of_mem v hu)
    have hall : ∀ u ∈ tr ++ tr₀, u.OnFacade := fun u hu => (List.mem_append.mp hu).elim (hft u) (hf₀ u)
    have hav : v.Abroad k := ⟨by rw [Spared.closed_hub ih.toApart, hk],
      by rw [Spared.thread_hub ih.toApart]; exact (ha v List.mem_cons_self).symm⟩
    obtain ⟨home, hl⟩ := (h₀.append h).locked hs
    have hstep := ((h₀.append h).sound hs hall).spared
      ((h₀.append h).rested hs fun u hu => (hall u hu).inSlots) hl.manned hh
      (hf v List.mem_cons_self) hav
    refine (ih.mono fun q hq => ?_).trans
      (hstep.reparents.mono fun q hq => ⟨v, List.mem_cons_self, hq⟩)
    obtain ⟨u, hu, hq⟩ := hq
    exact ⟨u, List.mem_cons_of_mem v hu, hq⟩
  | yield h hi hn ih => exact (ih hf ha).trans (.of_thread (f := id) rfl rfl rfl (.inl rfl))

/-- What other threads do disturbs no open hub, whatever handles to its greenlets they hold. -/
theorem Run.undisturbed {tr₀ : List World} (hs : w₀.Starts) (h₀ : Run w₀ tr₀ w)
    (hf₀ : ∀ v ∈ tr₀, v.OnFacade) (h : Run w tr w') (hf : ∀ v ∈ tr, v.OnFacade)
    (hk : (w.hub k).closed = false) (ha : ∀ v ∈ tr, v.active ≠ (w.hub k).thread) :
    Undisturbed tr k w w' := by
  have hall : ∀ u ∈ tr ++ tr₀, u.OnFacade := fun u hu => (List.mem_append.mp hu).elim (hf u) (hf₀ u)
  have hr := h₀.rested hs fun u hu => (hf₀ u hu).inSlots
  have hr' := (h₀.append h).rested hs fun u hu => (hall u hu).inSlots
  obtain ⟨⟨m, -, hst⟩, -, -⟩ := h₀.sound hs hf₀
  have ht := (hst.hubs k (hub_lt_of_open hk)).thread
  exact (Run.spared hs h₀ hf₀ h hf hk ha).keepsWithin hr.registry hr'.registry hk
    (Nat.sub_one_lt_of_le ht.1 ht.2) fun q g hq =>
      Run.isDone_iff hs h₀ h (fun v hv => (hall v hv).inSlots) hq

/-- A second thread has handles to three greenlets of the first one. It fails to switch to the
suspended one, puts that under another, and drops it and one that has not started. -/
def visiting : World :=
  Script.start .empty
    [("a", [.switch "@main" (.built [] []) none none]), ("b", []), ("c", [])]
    [.create "a" "a" [] [] none none, .create "b" "b" [] [] none none,
      .create "c" "c" [] [] none none, .switch "a" (.built [] []) none none,
      .spawn [.switch "a" (.built [] []) none none, .setParent "a" "b", .drop "c", .drop "a"]] 500

theorem Run.undisturbed_visiting : ∃ tr, Run (visiting.run 50) tr ((visiting.run 50).run 40) ∧
    (∀ v ∈ tr, v.active ≠ ((visiting.run 50).hub 0).thread) ∧
    ((visiting.run 50).hub 0).nodes = [3, 2, 1] ∧
    (((visiting.run 50).run 40).hub 0).nodes = [2, 1] ∧
    (((visiting.run 50).run 40).hub 0).foreign = [1] ∧
    Undisturbed tr 0 (visiting.run 50) ((visiting.run 50).run 40) := by
  obtain ⟨tr₀, h₀, hf₀⟩ := (@Run.start visiting).run_all (p := World.OnFacade) (n := 50)
    (by decide +kernel)
  obtain ⟨tr, h, hall⟩ := (@Run.start (visiting.run 50)).run_all (n := 40)
    (p := fun v => v.OnFacade ∧ v.active ≠ ((visiting.run 50).hub 0).thread) (by decide +kernel)
  rw [List.append_nil] at h₀ h
  exact ⟨tr, h, fun v hv => (hall v hv).2, by decide +kernel, by decide +kernel, by decide +kernel,
    Run.undisturbed (.script ..) h₀ hf₀ h (fun v hv => (hall v hv).1) (by decide +kernel)
      fun v hv => (hall v hv).2⟩

/-- A second thread drops a greenlet of the first one that has not started and that captured what
panics when it is dropped. -/
def shedding : World :=
  Script.start .empty [("u", [])]
    [.create "u" "u" [⟨"c", [.panic "boom" .text]⟩] [] none none,
      .spawn [.nest (.attemptPanic false) [.drop "u"]]] 500

/-- It is struck off and has lost its run function, and its storage is never freed. -/
theorem disturbed_shedding : ∃ tr, Run (shedding.run 7) tr ((shedding.run 7).run 24) ∧
    (∀ v ∈ tr, v.active ≠ ((shedding.run 7).hub 0).thread) ∧
    ((shedding.run 7).hub 0).closed = false ∧ ((shedding.run 7).hub 0).nodes = [1] ∧
    ((shedding.run 7).greenlet 1).run.isSome = true ∧
    (((shedding.run 7).run 24).hub 0).nodes = [] ∧
    (((shedding.run 7).run 24).object? 1).isSome = true ∧
    ((shedding.run 7).run 24).buries 1 = false ∧
    (((shedding.run 7).run 24).greenlet 1).run.isSome = false := by
  obtain ⟨tr, h, ha⟩ := (@Run.start (shedding.run 7)).run_all (n := 24)
    (p := fun v => v.active ≠ ((shedding.run 7).hub 0).thread) (by decide +kernel)
  rw [List.append_nil] at h
  refine ⟨tr, h, ha, ?_⟩
  decide +kernel

end World

end Switchyard
