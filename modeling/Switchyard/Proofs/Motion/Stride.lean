import Switchyard.Proofs.Lock.Transfer
import Switchyard.Proofs.Motion.Kept
import Switchyard.Proofs.Motion.Signals

/-!
# Steps in motion

A step goes on with another thread, or is a sequence of motions, or begins to shut the hub of a slot
that ends, or makes a hub that is in no slot. Whichever it is, what is referred to is kept.
-/

namespace Switchyard

namespace World

variable {L : Licence} {w w₀ v : World} {tr : List World} {t : Task} {below : List (Item Task)}
  {hand hand' : List Token} {h : HubId}

/-- The hub `h` closes at once. -/
def closing (h : HubId) (w : World) : World :=
  w.modifyHub h fun s => { s with closed := true, nodes := [] }

theorem newHubStep_eq (w : World) (name : String) : ∃ d, w.newHubStep name =
    { w.createHub.2 with named := w.createHub.2.named.insert name w.hubs.size }.push
      (((w.createHub.2.named.find? name).map Task.leaveHub).toList ++ [Task.note "ts_new" [d]]) :=
  ⟨_, rfl⟩

inductive Stride (L : Licence) (w : World) : Prop where
  | yield (i : ThreadId) (hi : 0 < i) (hs : i ≤ w.threads.size) (ht : w.thread.stack = [])
      (he : w.next = { w with active := i })
  /-- A fiber has come to its end. -/
  | land {f : FiberId} {forced : Bool} {below : List (Item Task)}
      (ht : w.thread.stack = .base f forced :: below) (m : Motion L [] w [] w.next)
  /-- A task is taken from the stack and run. -/
  | task {t : Task} {below : List (Item Task)} (ht : w.thread.stack = .task t :: below)
      (hn : ∀ h, t = .teardown h → (w.hub h).closed = true)
      (m : Motion L [] w t.tokens (w.setStack below))
      (m' : Motion L t.handed (w.setStack below) [] w.next)
  /-- An open hub is shut. It is closed before anything else is done. -/
  | shutting {h : HubId} {below : List (Item Task)}
      (ht : w.thread.stack = .task (.teardown h) :: below) (ho : (w.hub h).closed = false)
      (hh : L.hubs h) (m : Motion L [] (w.closing h) [] ((w.closing h).setStack below))
      (m' : Motion L [] ((w.closing h).setStack below) [] w.next)
  | leaving {h : HubId} {touched : List SlotName} {below : List (Item Task)}
      (ht : w.thread.stack = .task .exitSlots :: below) (hh : w.thread.home = .full h)
      (he : w.next = w.modifyThread fun t => { t with
        stack := ([.teardown h, .leaveHub h, .exitSlots] : List Task).map .task ++ below
        touched, home := .gone })
  | founding {name : String} {rest : List Script.Step} {below : List (Item Task)} {v : World}
      (ht : w.thread.stack = .task (.steps (.newHub name :: rest)) :: below)
      (m : Motion L [] w [] v) (he : w.next = v.newHubStep name)

namespace Kept

theorem yield (hs : Kept hand w) {i : ThreadId} (hi : 0 < i) (hn : i ≤ w.threads.size) :
    Kept hand { w with active := i } :=
  ⟨⟨hi, hn⟩, hs.covers, hs.framing, hs.saved, hs.unowned⟩

theorem leaveHome (hs : Kept [] w) (touched : List SlotName)
    (hh : w.thread.home = .full h) (ht : w.thread.stack = .task .exitSlots :: below) :
    Kept [] (w.modifyThread fun t => { t with
      stack := ([.teardown h, .leaveHub h, .exitSlots] : List Task).map .task ++ below
      touched, home := .gone }) := by
  have hf : Item.Framed w.thread.stack := hs.framed.stack
  rw [ht] at hf
  have htd : (Task.teardown h).Sits
      (([.leaveHub h, .exitSlots] : List Task).map .task ++ below) :=
    .guest (h := h) rfl (by simp) (by simp [Item.keeps, Task.keeps])
  refine hs.modifyThread ⟨htd, .of_isAlone rfl, .of_isAlone rfl, hf.2⟩
    (hs.covers.modifyThread hs.seated fun k _ => ?_)
  simp [Thread.tokens, ht, hh, Item.tokens, Task.tokens, Slot.tokens, Slot.get?, List.count_cons]
  omega

theorem newHubStep (hs : Kept [] w) (name : String) : Kept [] (w.newHubStep name) := by
  obtain ⟨d, he⟩ := newHubStep_eq w name
  have hk : Kept [.hub w.hubs.size] w.createHub.2 := hs.createHub
  rw [he]
  generalize w.createHub.2 = v at hk ⊢
  have hn : Kept (Task.tokensOf ((v.named.find? name).map Task.leaveHub).toList)
      { v with named := v.named.insert name w.hubs.size } := by
    refine hk.rename fun k => ?_
    have := Table.count_tokens_insert (fun h => [Token.hub h]) v.named name w.hubs.size k
    cases hf : v.named.find? name <;>
      simp [hf, tableTokens, Task.tokens, List.count_cons] at this ⊢ <;> omega
  have hl : (((v.named.find? name).map Task.leaveHub).toList ++
      [Task.note "ts_new" [d]]).all Task.isAlone = true := by
    cases v.named.find? name <;> rfl
  refine hn.push (hn.framed.stack.push hl) (hn.covers.push hn.seated fun k _ => ?_)
  simp [Task.tokensOf_append, Task.tokens]

/-- A step is one of six. -/
theorem stride (hk : Kept [] w) (hw : w.Manned) (hh : w.isHalted = false)
    (hl : ∀ t below, w.thread.stack = .task t :: below → L.Admits (w.setStack below) t)
    (hb : ∀ f forced below, w.thread.stack = .base f forced :: below →
      L.fibers f ∧ ((∀ k, L.Loses k) ∨ (forced = false → (w.fiberD f).tokens = []))) :
    Stride L w := by
  cases hstk : w.thread.stack with
  | nil =>
    have ha : 1 < w.active := by
      unfold isHalted at hh
      simpa [hstk] using hh
    obtain ⟨h₁, h₂⟩ := hw.parents _ _ hk.seated.getElem? (by unfold ThreadId at *; omega)
    refine .yield _ h₁ h₂ hstk ?_
    unfold World.next
    rw [hstk]
  | cons x below =>
    have hf : Item.Framed w.thread.stack := hk.framed.stack
    rw [hstk] at hf
    cases x with
    | base f forced =>
      have hp : Motion L [] w [] (w.setStack below) := .popBase hstk
      obtain ⟨hf, hx⟩ := hb f forced below hstk
      have hn : w.next = (w.setStack below).setControl
          ((w.setStack below).control.land f forced) := by
        unfold World.next
        rw [hstk]
      exact .land hstk (hn ▸ hp.trans (.land hf hx))
    | task t =>
      have hn : w.next = (w.setStack below).runTask t := by
        unfold World.next
        rw [hstk]
      have hadm := hl t below hstk
      by_cases htd : ∃ h, t = .teardown h ∧ (w.hub h).closed = false
      · obtain ⟨h, rfl, ho⟩ := htd
        have hp : Motion L [] (w.closing h) ([] ++ []) ((w.closing h).setStack below) :=
          .pop (t := .teardown h) hstk
        have hh : L.hubs h := hadm.hubs h (.inl rfl)
        refine .shutting hstk ho hh hp (hn ▸ ?_)
        exact .shutting (w := w.setStack below) ((seated_modifyThread _).mpr hk.seated)
          (by rw [stack_setStack hk.seated]; exact hf.1.kept h rfl) hh
          (fun r hr => ⟨hadm.greenlets r hr, fun f hf => hadm.fibers f ⟨r, hr, hf⟩⟩) ho
      have hp : Motion L [] w (t.tokens ++ []) (w.setStack below) := .pop hstk
      rw [List.append_nil] at hp
      by_cases hx : ∃ h touched, t = .exitSlots ∧ w.thread.touched = .home :: touched ∧
        w.thread.home = .full h
      · obtain ⟨h, touched, rfl, hto, hho⟩ := hx
        have he : w.next = w.modifyThread fun t => { t with
            stack := ([.teardown h, .leaveHub h, .exitSlots] : List Task).map .task ++ below
            touched, home := .gone } := by
          rw [hn]
          change (w.setStack below).exitSlots = _
          unfold World.exitSlots
          rw [thread_setStack hk.seated]
          simp only [hto, hho, Slot.get?, Option.map_some, Option.getD_some]
          unfold World.setStack World.push
          rw [modifyThread_modifyThread, modifyThread_modifyThread]
          rfl
        exact .leaving hstk hho he
      by_cases hm : t.makesHub = true ∧ w.fuel ≠ 0
      · obtain ⟨hm, hfuel⟩ := hm
        obtain ⟨name, rest, rfl⟩ := Task.eq_steps_of_makesHub hm
        obtain ⟨fuel, hfuel⟩ := Nat.exists_eq_succ_of_ne_zero hfuel
        refine .founding hstk (hp.trans (.fuelled (hp.seated hk.seated) fuel rest)) (hn.trans ?_)
        change (w.setStack below).runSteps (.newHub name :: rest) = _
        unfold World.runSteps
        rw [show (w.setStack below).fuel = fuel + 1 from hfuel]
        rfl
      refine .task hstk (fun h he => ?_) hp (hn ▸ .runTask (hp.seated hk.seated) ?_
        (fun hfuel => ?_) (fun he touched hto => ?_) hadm)
      · by_contra ho
        exact htd ⟨h, he, by simpa using ho⟩
      · rw [stack_setStack hk.seated]
        exact hf.1
      · by_contra hx
        exact hm ⟨by simpa using hx, hfuel⟩
      · rw [thread_setStack hk.seated] at hto ⊢
        cases hho : w.thread.home with
        | full h => exact absurd ⟨h, touched, he, hto, hho⟩ hx
        | _ => rfl

theorem next (hk : Kept [] w) (hw : w.Manned) (hh : w.isHalted = false) : Kept [] w.next := by
  cases hk.stride hw hh (fun _ _ _ => Licence.admits_full _ _)
    fun _ _ _ _ => ⟨trivial, .inl Licence.loses_full⟩ with
  | yield i hi hs _ he => exact he ▸ hk.yield hi hs
  | land _ m => exact m.kept hk
  | @task t _ _ _ m m' =>
    refine ((m.trading ?_).trans m').kept hk
    exact .of_leaks trivial (fun _ => .inl trivial) fun k _ => t.handed_le k
  | @shutting h _ _ _ _ m m' => exact (m.trans m').kept (hk.close h)
  | leaving ht hh he => exact he ▸ hk.leaveHome _ hh ht
  | founding _ m he => exact he ▸ (m.kept hk).newHubStep _

end Kept

theorem demand_of_bare (ht : w.threads = #[{}]) (hh : w.heap = #[]) (hb : w.hubs = #[])
    (hf : w.fibers = #[]) (htab : w.tableTokens = []) (k : Token) : w.demand k = 0 := by
  unfold demand
  rw [ht, hh, hb, hf, htab]
  simp [total, Thread.tokens, Slot.tokens, Slot.get?]

theorem kept_of_bare (ht : w.threads = #[{}]) (ha : w.active = 1) (hh : w.heap = #[])
    (hb : w.hubs = #[]) (hf : w.fibers = #[]) (htab : w.tableTokens = []) : Kept [] w := by
  refine ⟨by simp [Seated, ht, ha], fun k _ => ?_, fun i => ?_, fun f s hs => ?_, fun h hd => ?_⟩
  · simp [demand_of_bare ht hh hb hf htab]
  · unfold stackAt
    rw [ht]
    rcases i with _ | i <;> trivial
  · simp [hf] at hs
  · simp [World.hub, hb]

theorem Starts.kept (hs : w₀.Starts) : Kept [] w₀ := by
  cases hs with
  | script env bodies main fuel =>
    have h : Kept [] { World.fresh env with bodies, fuel } :=
      kept_of_bare rfl rfl rfl rfl rfl rfl
    have m : Motion .full [] _ [] (Script.start env bodies main fuel) :=
      Motion.pushAlone h.seated rfl (.of_eq fun k _ => rfl)
    exact m.kept h
  | rally env =>
    have h : Kept [] (World.fresh env) := kept_of_bare rfl rfl rfl rfl rfl rfl
    have m : Motion .full [] _ [] ((World.fresh env).push
        [.rally (.start (Rally.rounds env)), .exitThread]) :=
      Motion.pushAlone h.seated rfl (.of_eq fun k _ => rfl)
    exact m.kept h

/-- At every point of a run every reference and every share of a hub is covered. -/
theorem Run.kept (hs : w₀.Starts) (h : Run w₀ tr w) : Kept [] w := by
  induction h with
  | start => exact hs.kept
  | step h hw ih =>
    obtain ⟨home, hl⟩ := h.locked hs
    exact ih.next hl.manned hw
  | yield _ hi hn ih => exact ih.yield hi hn

end World

end Switchyard
