import Switchyard.Proofs.Motion.Basic

/-!
# Dropping in motion

What drops a reference, destroys a value or gives a stack up is a sequence of motions.
-/

namespace Switchyard

open World

namespace Task

theorem all_isAlone_dropPayload (p : Payload) : (dropPayload p).all isAlone = true :=
  all_isAlone_of_isPlain (all_isPlain_dropPayload p)

theorem all_isAlone_dropRun (run : RunFn) : (dropRun run).all isAlone = true :=
  all_isAlone_of_isPlain (all_isPlain_dropRun run)

theorem all_isAlone_getD_dropRun (run : Option RunFn) :
    ((run.map dropRun).getD []).all isAlone = true := by
  cases run with
  | none => rfl
  | some run => exact all_isAlone_dropRun run

theorem all_isAlone_getD_dropPayload (p : Option Payload) :
    ((p.map dropPayload).getD []).all isAlone = true := by
  cases p with
  | none => rfl
  | some p => exact all_isAlone_dropPayload p

theorem all_isAlone_toList_drop (o : Option Ref) : (o.map drop).toList.all isAlone = true :=
  all_isAlone_of_isPlain (all_isPlain_toList_drop o)

theorem all_isAlone_map_drop (rs : List Ref) : (rs.map drop).all isAlone = true := by
  simp [isAlone, guest?]

theorem all_isAlone_dropOutgoing (o : Option Outgoing) :
    (dropOutgoing o).all isAlone = true := by
  cases o with
  | none => rfl
  | some o =>
    cases o with
    | switch target p => exact all_isAlone_dropPayload p
    | result p => exact all_isAlone_dropPayload p

theorem all_isAlone_dropArgs (a : Args Obj) : (dropArgs a).all isAlone = true :=
  all_isAlone_of_isPlain (all_isPlain_dropArgs a)

theorem all_isAlone_dropFlow (f : Flow) : (dropFlow f).all isAlone = true := by
  cases f with
  | ret a => exact all_isAlone_dropArgs a
  | _ => rfl

theorem all_isAlone_dropLocals (ls : List Local) :
    (ls.filterMap dropLocal).all isAlone = true := by
  simp only [List.all_eq_true, List.mem_filterMap]
  rintro t ⟨l, -, hl⟩
  cases l with
  | object o => cases o <;> cases hl; rfl
  | _ => cases hl; rfl

theorem all_isAlone_cleanup (t : Task) : t.cleanup.all isAlone = true := by
  cases t with
  | answer outcome => cases outcome <;> simp [cleanup, all_isAlone_dropArgs]
  | build acc positional keywords purpose =>
    cases purpose <;> simp [cleanup, isAlone, guest?, all_isAlone_dropArgs]
  | rally r => cases r <;> simp [cleanup, Rally.drops, isAlone, guest?, all_isAlone_dropArgs]
  | frame f =>
    rw [cleanup, List.all_append, all_isAlone_dropLocals, all_isAlone_dropArgs]
    rfl
  | _ =>
    simp [cleanup, isAlone, guest?, all_isAlone_dropArgs, all_isAlone_dropPayload,
      all_isAlone_dropRun, all_isAlone_dropOutgoing, all_isAlone_dropFlow]

/-- What is left to do for a task that will not run owns what the task does, but for handles, and
for the claim to a storage that will not be freed. -/
theorem pays_cleanup {L : Licence} (t : Task) (ht : ∀ r, t = .reclaim r → L.sheds r) :
    L.Pays (fun k => (tokensOf t.cleanup).count k) t.tokens.count := fun k _ => by
  refine ⟨count_tokensOf_cleanup t k, fun hk => ?_⟩
  by_cases hr : ∃ r, t = .reclaim r
  · obtain ⟨r, rfl⟩ := hr
    cases k with
    | object q | doom q => exact .inr (by simp [cleanup, tokens])
    | grave q =>
      by_cases hq : r = q
      · exact .inl (hq ▸ ht r rfl)
      · exact .inr (by simp [cleanup, tokens, hq])
    | _ => cases hk
  · refine .inr ?_
    cases k with
    | object q | doom q | grave q =>
      cases t with
      | answer outcome => cases outcome <;> simp [cleanup, tokens]
      | build acc _ _ purpose => cases purpose <;> simp [cleanup, tokens, Purpose.tokens]
      | rally r => simp [cleanup, tokens, count_tokensOf_drops]
      | reclaim r => exact absurd ⟨r, rfl⟩ hr
      | _ => simp [cleanup, tokens, Frame.tokens, List.count_cons]
    | _ => cases hk

theorem all_isAlone_greenletParts (g : Greenlet) : (greenletParts g).all isAlone = true := by
  unfold greenletParts
  simp only [List.all_append, Bool.and_eq_true]
  refine ⟨⟨⟨all_isAlone_toList_drop _, all_isAlone_getD_dropRun _⟩, ?_⟩,
    all_isAlone_getD_dropPayload _⟩
  cases g.fiber <;> rfl

end Task

namespace World

variable {w : World} {r : Ref}

theorem greenlet_unref (q : Ref) : (w.unref r).greenlet q = w.greenlet q := by
  simp only [greenlet_eq, greenlet?, unref, object?_modifyObject]
  split
  · cases w.object? q <;> rfl
  · rfl

theorem modifyGreenlet_unref (f : Greenlet → Greenlet) :
    (w.unref r).modifyGreenlet r f = (w.modifyGreenlet r f).unref r := by
  unfold unref modifyGreenlet
  rw [modifyObject_modifyObject, modifyObject_modifyObject]
  congr 1
  funext o
  obtain ⟨n, v⟩ := o
  cases v <;> rfl

theorem abandonStack_unref :
    ((w.unref r).abandonStack r).2 = (w.abandonStack r).2.unref r := by
  unfold abandonStack
  simp only [greenlet_unref, modifyGreenlet_unref]
  cases (w.greenlet r).fiber with
  | none => rfl
  | some p =>
    have ha : ((w.modifyGreenlet r fun g => { g with state := .dead, fiber := none }).unref
      r).active = w.active := rfl
    have hb : (w.modifyGreenlet r fun g => { g with state := .dead, fiber := none }).active =
      w.active := rfl
    simp only [ha, hb]
    cases p.get? w.active <;> rfl

theorem abandonStack_forget (h : HubId) (q : Ref) :
    ((w.forget h q).abandonStack r).2 = (w.abandonStack r).2.forget h q := by
  unfold abandonStack
  have hg : (w.forget h q).greenlet r = w.greenlet r := rfl
  have ha (x : World) : (x.forget h q).active = x.active := rfl
  have hm (f : Greenlet → Greenlet) :
    (w.forget h q).modifyGreenlet r f = (w.modifyGreenlet r f).forget h q := rfl
  simp only [hg, hm, ha]
  cases (w.greenlet r).fiber with
  | none => rfl
  | some p =>
    have hb : (w.modifyGreenlet r fun g => { g with state := .dead, fiber := none }).active =
      w.active := rfl
    simp only [hb]
    cases p.get? w.active <;> rfl

theorem hubs_abandonStack : (w.abandonStack r).2.hubs = w.hubs := by
  unfold abandonStack
  simp only
  split
  · rfl
  · split <;> rfl

theorem hubLives_abandonStack (h : HubId) : (w.abandonStack r).2.hubLives h = w.hubLives h := by
  unfold hubLives World.hub
  rw [hubs_abandonStack]

theorem object?_abandonStack {n : Nat} {g : Greenlet}
    (ho : w.object? r = some ⟨n, .greenlet g⟩) :
    (w.abandonStack r).2.object? r = some ⟨n, .greenlet { g with state := .dead, fiber := none }⟩ := by
  have hm : (w.modifyGreenlet r fun g => { g with state := .dead, fiber := none }).object? r =
      some ⟨n, .greenlet { g with state := .dead, fiber := none }⟩ := by
    simp [modifyGreenlet, object?_modifyObject, ho]
  unfold abandonStack
  simp only
  split
  · exact hm
  · split <;> exact hm

end World

namespace World

variable {w : World} {r : Ref}

/-- The fiber of the greenlet, where the active thread may work on it. -/
def ownFiber (w : World) (r : Ref) : Option FiberId := (w.greenlet r).fiber.bind (·.get? w.active)

/-- The greenlet waits for its own thread when its last reference goes: it is of another thread,
whose hub is open. -/
def isAbroad (w : World) (g : Greenlet) : Bool :=
  g.thread != w.active && w.hubLives g.hub && !(w.hub g.hub).closed

end World

open World in
/-- A reference to `r` may go, with all that goes with the last one. -/
structure Licence.Parts (L : Licence) (w : World) (r : Ref) : Prop where
  drops : L.drops r
  found : L.leaks ∨ ∃ o, w.object? r = some o
  work : ∀ g, w.greenlet? r = some g → w.isAbroad g = false →
    L.hubs g.hub ∧ L.greenlets r ∧ ∀ f, w.ownFiber r = some f → L.fibers f

namespace Motion

variable {L : Licence} {w w' : World} {hand hand' : List Token} {r : Ref} {h : HubId} {f : FiberId}

theorem spares_destroy (hf : L.fibers f) (c : Control Task) (panicking : Bool) :
    L.Spares c (c.destroy f panicking).1 := by
  have ht := spares_modify hf c fun s => { s with phase := .taken }
  unfold Control.destroy
  simp only
  split
  · exact ht
  · split <;> exact ht
  · exact fun _ _ _ => rfl
  · exact ht
  · exact ht

theorem Spares.trans {c c' c'' : Control Task} (h : L.Spares c c') (h' : L.Spares c' c'')
    (hs : c.fibers.size ≤ c'.fibers.size) : L.Spares c c'' := fun q hq hlt =>
  (h' q hq (Nat.lt_of_lt_of_le hlt hs)).trans (h q hq hlt)

theorem spares_unshare (hf : L.fibers f) (c : Control Task) (panicking : Bool) :
    L.Spares c (c.unshare f panicking).1 := by
  have hm := spares_modify hf c fun s => { s with handles := s.handles - 1 }
  unfold Control.unshare
  simp only
  split
  · have hc := Spares.trans hm (spares_modify hf _ fun s => { s with cancelling := true })
      (by simp [Control.modify])
    exact Spares.trans hc (spares_destroy hf _ panicking) (by simp [Control.modify])
  · exact hm

theorem spares_abandon (hf : L.fibers f) (c : Control Task) : L.Spares c (c.abandon f) := by
  have hm := spares_modify hf c Fiber.settle
  have ht := Spares.trans hm (spares_modify hf _ fun s => { s with phase := .taken })
    (by simp [Control.modify])
  unfold Control.abandon
  simp only
  split
  · exact ht
  · exact ht
  · exact hm
  · exact ht
  · exact ht

theorem unshare (hf : L.fibers f) (panicking : Bool) :
    Motion L hand w hand (w.setControl (w.control.unshare f panicking).1) :=
  fibers (fun h => h.unshare f panicking) (spares_unshare hf _ panicking)
    (fun h k => Control.claims_unshare (h.honest f) panicking k)
    fun h => .inr fun k => Control.owed_unshare (h.frank f) panicking k

theorem takeControl {x : Control Task × Bool} (m : Motion L hand w hand (w.setControl x.1)) :
    Motion L hand w hand (w.takeControl x) := by
  unfold World.takeControl
  simp only
  split
  · exact m.trans (.script (.fail _))
  · exact m

theorem unshareTask (hf : L.fibers f) : Motion L hand w hand (w.unshare f) :=
  takeControl (unshare hf _)

theorem dropPinned {p : Pinned FiberId} (hf : ∀ f, p.get? w.active = some f → L.fibers f) :
    Motion L hand w hand (w.dropPinned p) := by
  unfold World.dropPinned
  split
  · exact unshareTask (hf _ ‹_›)
  · exact refl

theorem abandonStack (hr : L.greenlets r) (hf : ∀ f, w.ownFiber r = some f → L.fibers f) :
    Motion L hand w hand (w.abandonStack r).2 := by
  have hm : Motion L hand w hand
      (w.modifyGreenlet r fun g => { g with state := .dead, fiber := none }) :=
    greenletQuiet hr (fun _ => ⟨rfl, rfl, rfl, rfl⟩) (fun _ => .inl rfl) fun _ => ⟨rfl, rfl, rfl⟩
  unfold World.abandonStack
  simp only
  split
  · exact hm
  · rename_i p hp
    split
    · exact hm
    · rename_i f hg
      have hf : L.fibers f := hf f (by rw [World.ownFiber, hp]; exact hg)
      refine hm.trans (fibers (fun h => (h.abandon f).unshare f _)
        (Spares.trans (spares_abandon hf _) (spares_unshare hf _ _) ?_) (fun h k => ?_) fun h =>
          .inr fun k => ?_)
      · unfold Control.abandon
        simp only
        split <;> simp [Control.modify]
      · exact Nat.le_trans (Control.claims_unshare ((h.abandon f).honest f) _ k)
          (Control.claims_abandon k)
      · exact (Control.owed_unshare ((h.abandon f).frank f) _ k).trans
          (Control.owed_abandon (h.frank f) k)

theorem unwind (hw : w.Seated) (hf : L.fibers f) : Motion L hand w hand (w.unwind f) := by
  have hc : Motion L hand w hand (w.modifyFiber f fun s => { s with cancelling := true }) :=
    modifyFiber hw hf fun _ => rfl
  unfold World.unwind
  simp only
  split
  · exact hc.trans (write _ _)
  · have hs : (w.modifyFiber f fun s => { s with cancelling := true }).Seated := hc.seated hw
    have hp : Motion L hand _ hand _ :=
      pushAlone hs (l := [.settle f]) rfl (.of_eq fun k _ => by simp [Task.tokens])
    exact (hc.trans hp).trans (takeControl (fibers (fun h => h.destroy f _)
      (spares_destroy hf _ _) (fun h k => Control.claims_destroy (h.honest f) _ k)
      fun h => .inr fun k => Control.owed_destroy (h.frank f) _ k))

theorem destroying (hw : w'.Seated) (m : Motion L hand w (.grave r :: .doom r :: hand') w') :
    Motion L hand w hand' (w'.push [.destroy r]) :=
  m.trans (pushAlone hw rfl (.of_eq fun k _ => by
    simp [Task.tokens, List.count_cons]
    omega))

theorem keep (hd : L.drops r) {o : Object} (ho : w.object? r = some o) (h₁ : o.count ≤ 1) :
    Motion L (.object r :: hand) w (.object r :: hand)
      ((w.unref r).modifyObject r fun o => { o with count := 1 }) := by
  have he : (w.unref r).modifyObject r (fun o => { o with count := 1 }) =
      w.modifyObject r fun _ => ⟨1, o.value⟩ := by
    rw [unref, modifyObject_modifyObject]
    refine modifyObject_congr fun o' ho' => ?_
    rw [ho] at ho'
    cases ho'
    rfl
  rw [he]
  exact .restore hd ho h₁ (.inl rfl)

theorem defer (hh : L.hubs h) (hs : h < w.hubs.size ∨ L.leaks) :
    Motion L (.object r :: hand) w hand (w.defer h r) := by
  unfold World.defer
  have hd : Motion L (.object r :: hand) w (.object r :: hand)
      (w.debug ("greenlet " ++ (w.greenlet r).id.text ++ ": release deferred")) := write _ _
  refine (hd.trans (.hub (f := fun s => { s with deferred := s.deferred ++ [r] }) hh
    (fun _ => ⟨rfl, rfl, rfl, rfl, rfl, rfl, rfl⟩) (.of_eq fun k hk => ?_) fun hn =>
      .of_leaks (hs.resolve_left hn) (fun q => .inr (by simp)) fun k _ => ?_)).trans (modifyStats hh _)
  · have := Token.count_queued hk r
    simp only [Hub.tokens, List.flatMap_append, List.flatMap_singleton, List.count_append,
      List.count_cons, List.count_nil] at this ⊢
    omega
  · rw [List.count_cons]
    omega

theorem hub_lt_of_lives (hl : w.hubLives h = true) : h < w.hubs.size := by
  by_contra hn
  simp [hubLives, World.hub, Array.getElem?_eq_none (Nat.le_of_not_lt hn)] at hl

private theorem abandonRetire (hd : L.drops r) (hr : L.greenlets r)
    (hf : ∀ f, w.ownFiber r = some f → L.fibers f) {n : Nat} {g : Greenlet}
    (ho : w.object? r = some ⟨n, .greenlet g⟩) (h₁ : n ≤ 1) (hm : g.isMain = false) :
    Motion L (.object r :: hand) w (.grave r :: .doom r :: hand)
      (if w.hubLives g.hub then ((w.abandonStack r).2.unref r).forget g.hub r
        else (w.abandonStack r).2.unref r) := by
  have ha : Motion L (.object r :: hand) w _ _ := abandonStack hr hf
  let g' : Greenlet := { g with state := .dead, fiber := none }
  have hr : Motion L (.object r :: hand) (w.abandonStack r).2 (.grave r :: .doom r :: hand)
      (if (w.abandonStack r).2.hubLives g.hub then ((w.abandonStack r).2.unref r).forget g.hub r
        else (w.abandonStack r).2.unref r) :=
    Motion.retire (g := g') hd (object?_abandonStack ho) h₁ hm rfl
  rw [hubLives_abandonStack] at hr
  exact ha.trans hr

theorem releaseHook (hw : w.Seated) (hp : L.Parts w r) {n : Nat} {g : Greenlet}
    (ho : w.object? r = some ⟨n, .greenlet g⟩) (h₁ : n ≤ 1) (hm : g.isMain = false) :
    Motion L (.object r :: hand) w hand ((w.unref r).releaseHook r) := by
  have hgr : w.greenlet? r = some g := greenlet?_eq_some_iff.mpr ⟨n, ho⟩
  have hg : (w.unref r).greenlet r = g := by
    rw [greenlet_unref]
    exact greenlet_of_some hgr
  have hlv : (w.unref r).hubLives g.hub = w.hubLives g.hub := rfl
  have hwork := hp.work g hgr
  unfold World.releaseHook
  simp only [hg, hlv]
  split
  · rename_i hf
    have hf : g.fiber = none := by simpa [Greenlet.hasStack] using hf
    refine destroying ?_ (Motion.retire hp.drops ho h₁ hm hf)
    split <;> exact hw
  split
  · rename_i hl
    have hd (m : String) : ((w.unref r).debug m) = (w.debug m).unref r := rfl
    have hl : w.hubLives g.hub = false := by simpa using hl
    obtain ⟨-, hgl, hfib⟩ := hwork (by simp [isAbroad, hl])
    have hl (m : String) : (w.debug m).hubLives g.hub = false := hl
    rw [hd, abandonStack_unref]
    have ha : Motion L _ _ (.grave r :: .doom r :: hand) _ := abandonRetire
      (w := w.debug ("greenlet " ++ g.id.text ++ ": owner thread gone, abandoning stack")) hp.drops
      hgl hfib ho h₁ hm
    rw [hl] at ha
    have ma := (write _ _).trans ha
    exact destroying (ma.seated hw) ma
  split
  · rename_i hl hc
    have hd (m : String) : ((w.unref r).debug m).forget g.hub r =
      ((w.debug m).unref r).forget g.hub r := rfl
    have hl : w.hubLives g.hub = true := by simpa using hl
    have hc : (w.hub g.hub).closed = true := hc
    obtain ⟨hh, hgl, hfib⟩ := hwork (by simp [isAbroad, hc])
    have hl (m : String) : (w.debug m).hubLives g.hub = true := hl
    rw [hd, abandonStack_forget, abandonStack_unref]
    have ha : Motion L _ _ (.grave r :: .doom r :: hand) _ := abandonRetire
      (w := w.debug ("greenlet " ++ g.id.text ++ ": owner thread closed, abandoning stack")) hp.drops
      hgl hfib ho h₁ hm
    rw [hl] at ha
    have ma := ((write _ _).trans ha).trans
      (modifyStats hh fun s => { s with abandoned := s.abandoned + 1 })
    exact destroying (ma.seated hw) ma
  rename_i hl hc
  have hl : w.hubLives g.hub = true := by simpa using hl
  have hc' : ((w.unref r).hub g.hub).closed = false := by simpa only [Bool.not_eq_true] using hc
  have hc : (w.hub g.hub).closed = false := hc'
  split
  · exact ((keep hp.drops ho h₁).trans (write _ _)).trans (.send (hub_lt_of_lives hl))
  rename_i ht
  have ht' : g.thread = (w.unref r).active := by simpa only [bne_iff_ne, ne_eq, not_not] using ht
  have ht : g.thread = w.active := ht'
  obtain ⟨hh, -, -⟩ := hwork (by simp [isAbroad, ht])
  split
  · have hk : Motion L (.object r :: hand) _ _ _ := keep hp.drops ho h₁
    have hh := hk.trans (.hold hh hl)
    refine hh.trans (pushAlone (hh.seated hw) rfl (.of_eq fun k hk => ?_))
    cases k with
    | sole | fiber => cases hk
    | _ => simp [Task.tokens, List.count_cons]; try omega
  · exact (keep hp.drops ho h₁).trans (defer hh (.inl (hub_lt_of_lives hl)))

private theorem revive {name : String} {lives : Nat} (m : Motion L hand w [.object r] w') :
    Motion L hand w []
      (let (old, v) := (w'.event "revive" [.text name, .nat lives]).bindObject name (some r)
       v.push old) := by
  rcases hb : (w'.event "revive" [.text name, .nat lives]).bindObject name (some r) with ⟨old, v⟩
  have e : Effect L [.object r] w' (Task.tokensOf old ++ []) v :=
    (Effect.quiet (.event _ _)).trans (Effect.bindObject hb : Effect L (Obj.tokens (some r) ++ []) _ _ _)
  exact m.trans (.script (e.pushing (Effect.all_isPlain_bindObject hb) fun k => by simp))

theorem drop (hw : w.Seated) (hp : L.Parts w r) : Motion L [.object r] w [] (w.drop r) := by
  unfold World.drop
  cases ho : w.object? r with
  | none =>
    refine .trade (.of_leaks (hp.found.resolve_right ?_) (fun q => .inr (by simp)) fun k _ => ?_)
    · simp [ho]
    · simp
  | some o =>
    simp only
    split
    · rename_i h₁
      have hw' : (w.unref r).Seated := hw
      have bury (hm : ∀ g, o.value = .greenlet g → g.isMain = true) :
          Motion L [.object r] w [] ((w.unref r).push [.destroy r]) :=
        destroying hw' (.bury hp.drops ho h₁ hm)
      obtain ⟨n, v⟩ := o
      cases v with
      | greenlet g =>
        unfold lastDropped
        simp only
        split
        · rename_i hm
          refine bury fun g' hg' => ?_
          obtain rfl : g = g' := by simpa using hg'
          exact hm
        · rename_i hm
          exact releaseHook hw hp ho h₁ (by simpa using hm)
      | phoenix name lives =>
        cases lives with
        | zero => exact bury fun g hg => by cases hg
        | succ lives =>
          have hr : Motion L [.object r] w [.object r]
              ((w.unref r).modifyObject r fun _ => ⟨1, .phoenix name lives⟩) := by
            rw [unref, modifyObject_modifyObject]
            exact .restore hp.drops ho h₁ (.inr ⟨_, _, rfl, rfl⟩)
          unfold lastDropped
          exact revive hr
      | _ =>
        unfold lastDropped
        exact bury fun g hg => by cases hg
    · rename_i h₁
      have hr : Motion L [.object r] w [] (w.unref r) := .release hp.drops ho (by omega)
      exact hr

private theorem emptied (hw : w'.Seated) (m : Motion L hand w (.grave r :: hand') w')
    (ht : (w'.greenlet r).tokens = []) {l : List Task} (hl : l.all Task.isAlone = true)
    (hc : L.Pays (fun k => (Task.tokensOf l).count k) hand'.count) :
    Motion L hand w [] (w'.push (l ++ [.reclaim r])) := by
  refine (m.trans (.empty r ht)).trans (pushAlone hw ?_ (hc.congr fun k _ => ?_))
  · rw [List.all_append, hl]
    rfl
  · simp [Task.tokens, List.count_cons]
    omega

theorem destroy (hw : w.Seated) (r : Ref) : Motion L [.grave r] w [] (w.destroy r) := by
  let v : World := { w with lock := (w.lock.ensure? w.active).getD w.lock }
  have hl : Motion L [.grave r] w [.grave r] v := .lock _
  have hv : v.Seated := hw
  have bare (u : World) (hx : ∀ g, u.valueD r ≠ .greenlet g) : (u.greenlet r).tokens = [] := by
    unfold World.greenlet
    split
    · exact absurd ‹_› (hx _)
    · rfl
  unfold World.destroy
  simp only
  split
  · rename_i c hx
    have hx : v.valueD r = .canary c := hx
    exact emptied (l := [.dropCanary c]) hv hl (bare v (by simp [hx])) rfl (.of_eq fun k _ => by
      simp [Task.tokens])
  · rename_i name lives hx
    have hx : v.valueD r = .phoenix name lives := hx
    have hq : Quiet v (v.event "drop" [.text name]) := .event _ _
    have he := hl.trans (.quiet hq)
    have hx' : (v.event "drop" [.text name]).valueD r = .phoenix name lives := by
      rw [World.valueD, hq.object?]
      exact hx
    exact emptied (l := []) (he.seated hw) he (bare _ (by simp [hx'])) rfl (.of_eq fun k _ => by simp)
  · rename_i g hx
    have hg : v.greenlet r = g := by
      simp only [World.greenlet]
      rw [hx]
    have hc := hl.trans (.clear r : Motion L [.grave r] _ _ _)
    refine emptied (hc.seated hw) hc ?_ (Task.all_isAlone_greenletParts g) (.of_eq fun k _ => ?_)
    · rw [greenlet_eq, greenlet?_modifyGreenlet, if_pos rfl]
      cases v.greenlet? r <;> rfl
    · rw [hg, Task.count_tokensOf_greenletParts, List.append_nil]
  · rename_i _ _ hx
    exact emptied (l := []) hv hl (bare v hx) rfl (.of_eq fun k _ => by simp)

theorem reclaim (r : Ref) : Motion L [.grave r, .urn r] w [] (w.reclaim r) :=
  (Motion.erase r).trans (.lock _)

end Motion

end Switchyard
