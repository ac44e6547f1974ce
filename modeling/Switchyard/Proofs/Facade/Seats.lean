import Switchyard.Proofs.Facade.Fields
import Switchyard.Proofs.Refusals

/-!
# Whose stack runs

The control stack of a thread holds the base of at most one fiber that is not being unwound. The
fiber is that of the current greenlet, which is running and belongs to the thread. A greenlet of
another thread is not reached by a switch.
-/

namespace Switchyard

open World

namespace Mode

variable {s : List (Item Task)} {m : Mode} {f : FiberId}

theorem of_mem_base (h : of s = some m) (hf : .base f false ∈ s) :
    ∃ r x, m = ⟨.on r f x, .none⟩ := by
  induction s generalizing m with
  | nil => cases hf
  | cons i s ih =>
    obtain ⟨m₀, h₀, hi⟩ := of_cons h
    rcases List.mem_cons.mp hf with rfl | hf
    · rcases of_step_base hi with ⟨-, r, -, rfl⟩ | ⟨he, -⟩
      · exact ⟨r, .landed, rfl⟩
      · cases he
    · obtain ⟨r, x, rfl⟩ := ih h₀ hf
      cases i with
      | task t =>
        obtain ⟨y, rfl⟩ := of_step_on hi
        exact ⟨r, y, rfl⟩
      | base q forced => cases forced <;> cases hi

end Mode

namespace World

variable {A : Prop} {w₀ w : World} {h : HubId} {f : FiberId} {r : Ref} {i : Nat} {tr : List World}

/-- The greenlet at `r` has the fiber `f` and is the one that runs on the thread at place `i`, by
the hub `h`. -/
structure Seats (w : World) (i : Nat) (h : HubId) (r : Ref) (f : FiberId) : Prop where
  owned : w.Owned h i
  isOpen : (w.hub h).closed = false
  flagged : (w.hub h).runningFiber = true
  current : (w.hub h).current = r
  runs : ∃ g, w.living? r = some g ∧ g.hub = h ∧ g.thread = i + 1 ∧ g.fiber = some ⟨i + 1, f⟩ ∧
    g.state = .running
  active : (w.fiberD f).phase = .active

/-- A fiber that has its base on the stack of the active thread is that of a greenlet of the thread,
and the greenlet has control. -/
theorem Sound.seats_active (hs : Sound A w) (hf : .base f false ∈ w.thread.stack) :
    ∃ h r, w.Seats (w.active - 1) h r f := by
  obtain ⟨⟨m, hm, hst⟩, hc, hfile⟩ := hs
  obtain ⟨r, x, rfl⟩ := Mode.of_mem_base hm hf
  obtain ⟨h, g, ho, hopen, hfine, hl, hh, hfib, hsu⟩ :=
    hst.exists_seat hc hm hfile (r := r) (f := f) rfl rfl
  have hact : w.active - 1 + 1 = w.active := Nat.sub_add_cancel hst.seated.1
  obtain ⟨n, -, hd⟩ := hst.decent (greenlet?_of_living hl)
  refine ⟨h, r, ho, hopen, hfine.running, hfine.seated r f rfl rfl, ⟨g, hl, hh, ?_, ?_, ?_⟩, ?_⟩
  · rw [hd.thread, hh, ho.2]
  · rw [hact]
    exact hfib
  · exact (hsu.turn f rfl).2 rfl
  · exact (Ground.places_on.mp (hsu.fiber _ hfib).2).2.1

theorem Sound.seats (hs : Sound A w) (hf : .base f false ∈ w.stackAt i) :
    ∃ h r, w.Seats i h r f := by
  have hi : i + 1 ≤ w.threads.size := by
    by_contra hn
    unfold stackAt at hf
    rw [Array.getElem?_eq_none (by omega)] at hf
    cases hf
  have hy := hs.yield (Nat.succ_pos i) hi
  have hstk : ({ w with active := i + 1 } : World).thread.stack = w.stackAt i := by
    rw [stack_eq_stackAt]
    rfl
  obtain ⟨h, r, hseat⟩ := hy.seats_active (hstk ▸ hf)
  exact ⟨h, r, hseat.owned, hseat.isOpen, hseat.flagged, hseat.current, hseat.runs, hseat.active⟩

/-- The fiber of a greenlet is on a control stack exactly while it is active, and then on that of the
greenlet's own thread. -/
theorem Sound.base_iff {g : Greenlet} {p : Pinned FiberId} (hs : Sound A w)
    (hg : w.living? r = some g) (hp : g.fiber = some p) : p.owner = g.thread ∧
      ∀ i, .base p.value false ∈ w.stackAt i ↔
        i + 1 = g.thread ∧ (w.fiberD p.value).isActive = true := by
  obtain ⟨_, -, hst⟩ := hs.staging
  obtain ⟨n, -, hd⟩ := hst.decent (greenlet?_of_living hg)
  have hopen : (w.hub g.hub).closed = false := by
    by_contra hc
    rw [hd.shut (by simpa using hc)] at hp
    cases hp
  have hpos : 0 < (w.hub g.hub).thread := (hst.hubs _ hd.hub).thread.1
  have hown : w.Owned g.hub ((w.hub g.hub).thread - 1) := ⟨hd.hub, (Nat.sub_add_cancel hpos).symm⟩
  obtain ⟨m, hm, -, hstaged⟩ := hs.place hown
  have hsu := (hstaged.fine hopen).suits r g hg rfl
  obtain ⟨howner, -, hplaces⟩ := hsu.fiber p hp
  replace howner : p.owner = (w.hub g.hub).thread := howner
  refine ⟨howner.trans hd.thread.symm, fun i => ⟨fun hb => ?_, ?_⟩⟩
  · obtain ⟨h, q, hseat⟩ := hs.seats hb
    obtain ⟨k, hk, -, hth, hfib, -⟩ := hseat.runs
    obtain rfl : q = r := hst.pins q r k g _ _ (greenlet?_of_living hk) (greenlet?_of_living hg)
      hfib hp rfl
    obtain rfl : k = g := Option.some.inj (hk.symm.trans hg)
    exact ⟨hth.symm, by rw [Fiber.isActive, hseat.active]⟩
  · rintro ⟨hi, ha⟩
    have hact : (w.fiberD p.value).phase = .active := by
      unfold Fiber.isActive at ha
      split at ha
      · assumption
      · cases ha
    have hph : ((w.scene g.hub m (Item.edge (w.stackAt ((w.hub g.hub).thread - 1)))).fiberD
        p.value).phase = .active := hact
    simp only [hph] at hplaces
    obtain ⟨-, -, x, hx⟩ := hplaces
    have hi' : (w.hub g.hub).thread - 1 = i := by rw [← hd.thread, ← hi]; rfl
    rw [hi'] at hm
    replace hx : m.ground = .on r p.value x := hx
    have hu : m.unwinding = .none := by
      by_contra hn
      have hc := Mode.isCalm_of_unwinding hm hn
      rw [hx] at hc
      cases hc
    obtain ⟨ground, u⟩ := m
    obtain rfl : ground = .on r p.value x := hx
    obtain rfl : u = .none := hu
    obtain ⟨above, below, he, -⟩ := Mode.of_on hm
    rw [he]
    simp

/-- A switch to a greenlet of another thread is refused. The switcher is told why, and no hub, no
fiber and no greenlet is touched. -/
def TurnsAway (w : World) : Prop :=
  ∀ h target p below, w.thread.stack = .task (.switch h target p) :: below →
    (w.greenlet target).thread ≠ w.active →
      ∃ e v, Refused e (w.setStack below) v ∧
        w.next = v.push (Task.dropPayload p ++ [.answer (.error e)]) ∧
        e = if (w.hub h).closed then .threadExited
          else if (w.hub h).isBusy then .switchDuringRelease
          else .crossThreadSwitch (w.greenlet target).id

theorem Sound.turnsAway (hs : Sound A w) : w.TurnsAway := by
  intro h target p below hstk hth
  obtain ⟨⟨m, -, hst⟩, -, hfile⟩ := hs
  rw [hstk] at hfile
  have hthread : (w.hub h).thread = w.active :=
    hfile.1.1.2.trans (Nat.sub_add_cancel hst.seated.1)
  have hne : (w.greenlet target).thread ≠ (w.hub h).thread := hthread ▸ hth
  have hr : firstReason ((w.setStack below).switchReasons h target) =
      some (if (w.hub h).closed then .threadExited
        else if (w.hub h).isBusy then .switchDuringRelease
        else .crossThreadSwitch (w.greenlet target).id) := by
    change firstReason (w.switchReasons h target) = _
    simp only [switchReasons, firstReason_cons, bne_iff_ne.mpr hne, if_true]
    split
    · rfl
    · split <;> rfl
  obtain ⟨v, hv, hn⟩ := switch_refused ((seated_modifyThread _).mpr hst.seated) hr p
  refine ⟨_, v, hv, ?_, rfl⟩
  rw [← hn, World.next, hstk]
  rfl

/-- The threads run their own greenlets: the fiber of a greenlet is on a control stack exactly while
it is active, and that stack is the one of its thread. No other fibers are on control stacks, but for
those that are being unwound. -/
structure KeptApart (w : World) : Prop where
  base_iff : ∀ r g p, w.living? r = some g → g.fiber = some p → p.owner = g.thread ∧
    ∀ i, .base p.value false ∈ w.stackAt i ↔
      i + 1 = g.thread ∧ (w.fiberD p.value).isActive = true
  seats : ∀ i f, .base f false ∈ w.stackAt i → ∃ h r, w.Seats i h r f

/-- In a run on the facade the code of a greenlet runs on the greenlet's own thread, and a switch
made on another thread is refused. -/
theorem Run.keptApart (hs : w₀.Starts) (hr : Run w₀ tr w) (hf : ∀ v ∈ tr, v.OnFacade) :
    w.KeptApart ∧ w.TurnsAway :=
  have hsound := hr.sound hs hf
  ⟨⟨fun _ _ _ hg hp => hsound.base_iff hg hp, fun _ _ hb => hsound.seats hb⟩, hsound.turnsAway⟩

/-- The greenlet `g` starts a thread that switches to the unstarted `u` of the thread of `g`. -/
def calling : World :=
  Script.start .empty
    [("g", [.spawn [.switch "u" (.built [] []) none none]]), ("u", [])]
    [.create "u" "u" [] [] none none, .create "g" "g" [] [] none none,
      .switch "g" (.built [] []) none none] 500

theorem Run.keptApart_calling : ∃ tr, Run calling tr (calling.run 24) ∧
    (∀ v ∈ tr, v.OnFacade) ∧
    ((Control.split ((calling.run 24).stackAt 0)).map fun s => (s.2.1, s.2.2.1)) =
      some (0, false) ∧
    (calling.run 24).active = 2 ∧
    (∃ h p below, (calling.run 24).thread.stack = .task (.switch h 1 p) :: below) ∧
    ((calling.run 24).greenlet 1).thread = 1 ∧
    (calling.run 24).KeptApart ∧ (calling.run 24).TurnsAway := by
  obtain ⟨tr, h, hf⟩ := (@Run.start calling).run_all (p := World.OnFacade) (n := 24)
    (by decide +kernel)
  rw [List.append_nil] at h
  exact ⟨tr, h, hf, by decide +kernel, by decide +kernel, ⟨_, _, _, rfl⟩, by decide +kernel,
    Run.keptApart (.script ..) h hf⟩

end World

end Switchyard
