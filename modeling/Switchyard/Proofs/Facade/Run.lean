import Switchyard.Proofs.Facade.Closing

/-!
# Runs on the facade

No step of a run on the facade brings a hub, its greenlets or its fibers out of order.
-/

namespace Switchyard

open World

theorem Task.role_of_isScript {t : Task} (h : t.isScript = true) : t.role = .code := by
  cases t <;> first | rfl | cases h

theorem Task.sole_notMem_of_isScript {t : Task} (h : t.isScript = true) (r : Ref) :
    .sole r ∉ t.tokens := by
  cases t with
  | answer | release => cases h
  | _ => simp [tokens]

namespace World

variable {A A' : Prop} {w₀ w : World} {t : Task} {below : List (Item Task)} {tr : List World}

theorem Sound.mono (hs : Sound A w) (hA : A → A') : Sound A' w := by
  obtain ⟨⟨m, hm, hst⟩, hc, hf⟩ := hs
  refine ⟨⟨m, hm, { hst with staged := fun h hh m e hsh => ?_ }⟩, hc, hf⟩
  have h₁ := hst.staged h hh m e hsh
  exact { h₁ with fine := fun ho => (h₁.fine ho).mono hA }

/-- A panic is about to break off what a hub relies on. -/
def BreaksOff (w : World) : Prop :=
  ∃ p t below, w.thread.stack = .task (.fail p) :: .task t :: below ∧ t.isVital = true

theorem Sound.script (hs : Sound A w) (hstk : w.thread.stack = .task t :: below)
    (ht : t.isScript = true) : Sound A ((w.setStack below).runTask t) := by
  obtain ⟨m, hm, h, -⟩ := hs.pop_code hstk (Task.role_of_isScript ht)
  obtain ⟨m', -, h'⟩ := Steady.effect
    (.runTask h.seated ht (Licence.grants_full _ _)) h hm (Task.sole_notMem_of_isScript ht)
  exact h'.sound

theorem Sound.runTask (hs : Sound A w) (hstk : w.thread.stack = .task t :: below) {c c' : Context}
    (hb : Context.of below = some c) (ht : Context.task t c = some c') (hf : w.OnFacade)
    (hA : w.BreaksOff → A) : Sound A ((w.setStack below).runTask t) := by
  have needs {d e : Context} (h : Context.guard (c = d) e = some c') : c = d := by
    simpa using (Context.guard_eq_some_iff.mp h).1
  by_cases hscript : t.isScript = true
  · exact hs.script hstk hscript
  cases t with
  | drop r =>
    obtain ⟨m, hm, h, -⟩ := hs.pop_code hstk rfl
    exact (h.drop hm nofun).sound
  | dropPinned p =>
    obtain ⟨m, hm, h, -⟩ := hs.pop_code hstk rfl
    exact (h.dropPinned p).sound
  | destroy r =>
    obtain ⟨m, hm, h, -⟩ := hs.pop_code hstk rfl
    have h' : Steady A [.grave r] m _ :=
      h.trade fun k => by simp only [Task.tokens, List.count_cons, List.count_nil]; omega
    exact (h'.destroy hm).sound
  | reclaim r =>
    obtain ⟨m, hm, h, -⟩ := hs.pop_code hstk rfl
    have h' : Steady A [.grave r] m _ :=
      h.trade fun k => by simp only [Task.tokens, List.count_cons, List.count_nil]; omega
    exact h'.reclaim.sound
  | unlock =>
    obtain ⟨m, hm, h, -⟩ := hs.pop_code hstk rfl
    exact h.unlock.sound
  | unshare f =>
    obtain ⟨m, hm, h, -⟩ := hs.pop_code hstk rfl
    exact h.unshare.sound
  | settle f =>
    obtain ⟨m, hm, h, hfile⟩ := hs.pop_code hstk rfl
    exact (h.settle hfile).sound
  | leaveHub h =>
    obtain ⟨m, hm, h₁, hfile⟩ := hs.pop_code hstk rfl
    exact h₁.leaveHub hm hfile
  | drain h =>
    obtain ⟨m, hm, h₁, hfile⟩ := hs.pop_code hstk rfl
    exact (h₁.drain hm hfile).sound
  | release h r =>
    obtain ⟨m₀, m, hi, hp, ho, hsp, hdr⟩ := hs.poise hstk
    obtain ⟨rfl, hu, hcalm⟩ := Mode.of_step_release hi rfl
    exact hp.steady.release hu hcalm ho hsp hdr
  | released h r =>
    obtain ⟨m₀, m, hi, hp, ho, -⟩ := hs.poise hstk
    obtain ⟨g, rfl, hcalm, rfl⟩ := Mode.of_step_released hi rfl
    exact hp.staging.released hp.covered hp.mode hcalm hp.filed ho
  | dropHubFields h => exact hs.dropHubFields hstk
  | teardown h => exact hs.teardown hstk
  | teardownQueues h n => exact hs.teardownQueues hstk
  | teardownCurrent h n => exact hs.teardownCurrent hstk
  | teardownEnd h main n => exact hs.teardownEnd hstk
  | switch h target p => exact hs.switch hstk
  | suspend h f => exact hs.suspend hstk
  | resumed h => exact hs.resumed hstk
  | answer outcome => exact hs.answer hstk (needs ht ▸ hb)
  | drive h target p => exact hs.drive hstk
  | driveTarget h target p => exact hs.driveTarget hstk
  | driveKilled h target p => exact hs.driveKilled hstk
  | driveRefused h target e => exact hs.driveRefused hstk
  | driveRegister h target f => exact hs.driveRegister hstk
  | driveResume h target f => exact hs.driveResume hstk
  | driveBack h target f => exact hs.driveBack hstk
  | driveFinished h target out => exact hs.driveFinished hstk
  | driveSuspended h target out => exact hs.driveSuspended hstk
  | driveMain h target p => exact hs.driveMain hstk
  | endDriving h => exact hs.endDriving hstk
  | result p => exact hs.result hstk (needs ht ▸ hb)
  | entry h f => exact hs.entry hstk
  | steps rest =>
    cases rest with
    | nil => exact absurd rfl hscript
    | cons st rest => exact absurd (hf st rest below hstk) hscript
  | leave flow => exact hs.leave hstk (needs ht ▸ hb)
  | hand last flow =>
    exact hs.hand hstk hb (Context.guard_eq_some_iff.mp ht).1
  | endHubs =>
    obtain ⟨m, hm, h, -⟩ := hs.pop_code hstk rfl
    have hn : World.endHubs (w.setStack below) = w.setStack below := by
      unfold World.endHubs
      rw [h.staging.named]
      rfl
    exact (show Sound A (w.setStack below).endHubs from hn.symm ▸ h.sound)
  | exitThread =>
    obtain ⟨hp, -⟩ := hs.poise_closing hstk rfl
    exact hp.steady.exitThread
  | exitSlots => exact hs.exitSlots hstk
  | fail p => exact hs.fault hstk fun u rest hr hd => hA ⟨p, u, rest, hr ▸ hstk, hd⟩
  | _ => exact absurd rfl hscript

theorem Sound.next {c : Context} (hs : Sound A w) (hc : w.Stands c) (hr : w.isHalted = false)
    (hf : w.OnFacade) (hA : w.BreaksOff → A) : Sound A w.next := by
  obtain ⟨m, hm⟩ := hs.staging
  unfold World.next
  split
  · rename_i ht
    have ha : 1 < w.active := by
      unfold isHalted at hr
      simpa [ht] using hr
    obtain ⟨h₁, h₂⟩ := hm.2.manned.parents _ _ hs.seated.getElem? (by unfold ThreadId at *; omega)
    exact hs.yield h₁ h₂
  · rename_i f forced below ht
    exact hs.land ht
  · rename_i t below ht
    obtain ⟨c₁, hb, hi⟩ := Context.of_cons (ht ▸ hc.context)
    exact hs.runTask ht hb hi hf hA

private theorem steady_of_bare (ht : w.threads = #[{}]) (ha : w.active = 1) (hh : w.heap = #[])
    (hb : w.hubs = #[]) (hf : w.fibers = #[]) (hn : w.named = .empty)
    (htab : w.tableTokens = []) : Steady False [] .idle w := by
  have hstk (i : Nat) : w.stackAt i = [] := by
    unfold stackAt
    rw [ht]
    rcases i with _ | i <;> rfl
  have hobj (r : Ref) : w.object? r = none := by simp [World.object?, hh]
  have hgr (r : Ref) : w.greenlet? r = none := by simp [World.greenlet?, hobj]
  have hown : w.thread.stack = [] := (stack_eq_stackAt w).trans (hstk _)
  have hst : Staging False (some (.idle, .plain)) w := by
    constructor
    · refine ⟨by simp [Seated, ht, ha], fun i t h hi => ?_⟩
      rw [ht] at h
      rcases i with _ | i
      · cases hi
      · cases h
    · exact hn
    · exact fun i _ => by rw [hstk]; exact ⟨⟨.idle, rfl⟩, trivial⟩
    · exact fun r n g ho => by rw [hobj] at ho; cases ho
    · exact fun r q g k p p' hg => by rw [hgr] at hg; cases hg
    · exact fun f hlt => by simp [hf] at hlt
    · exact fun h hlt => by simp [hb] at hlt
    · exact fun h k hlt => by simp [hb] at hlt
    · intro i h hi
      unfold homeAt at hi
      rw [ht] at hi
      rcases i with _ | i <;> cases hi
    · exact fun h hlt => by simp [hb] at hlt
    · exact fun h hlt => by simp [hb] at hlt
  refine ⟨hst, fun k => ?_, by rw [hown]; rfl, by rw [hown]; trivial⟩
  have hd : w.demand k = 0 := by
    unfold demand
    rw [ht, hh, hb, hf, htab]
    simp [total, Thread.tokens, Slot.tokens, Slot.get?]
  simp [hd]

theorem Starts.sound (hs : w₀.Starts) : Sound False w₀ := by
  cases hs with
  | script env bodies main fuel =>
    have h : Steady False [] .idle { World.fresh env with bodies, fuel } :=
      steady_of_bare rfl rfl rfl rfl rfl rfl rfl
    have hp : Poised False [] .idle .idle .plain _ := ⟨h.staging, h.covered, h.mode, h.filed⟩
    exact hp.push rfl (.inl rfl) ⟨trivial, trivial, trivial, trivial, trivial, trivial, trivial,
      trivial, trivial, hp.filed⟩ fun k => Nat.le_refl _
  | rally env =>
    have h : Steady False [] .idle (World.fresh env) := steady_of_bare rfl rfl rfl rfl rfl rfl rfl
    have hp : Poised False [] .idle .idle .plain _ := ⟨h.staging, h.covered, h.mode, h.filed⟩
    exact hp.push rfl (.inl rfl) ⟨trivial, trivial, hp.filed⟩ fun k => Nat.le_refl _

/-- All is in order at every point of a run that stays on the facade. -/
theorem Run.sound (hs : w₀.Starts) (h : Run w₀ tr w) (hf : ∀ v ∈ tr, v.OnFacade) :
    Sound (∃ v ∈ tr, v.BreaksOff) w := by
  induction h with
  | start => exact hs.sound.mono False.elim
  | @step tr v h hw ih =>
    have hf' : ∀ u ∈ tr, u.OnFacade := fun u hu => hf u (List.mem_cons_of_mem _ hu)
    obtain ⟨c, hc⟩ := h.stands hs
    exact ((ih hf').mono fun ⟨u, hu, hl⟩ => ⟨u, List.mem_cons_of_mem _ hu, hl⟩).next hc hw
      (hf _ List.mem_cons_self) fun hl => ⟨v, List.mem_cons_self, hl⟩
  | yield h hi hn ih => exact (ih hf).yield hi hn

end World

end Switchyard
