import Switchyard.Proofs.Effect.Run
import Switchyard.Proofs.Facade.Targets

/-!
# Steps that move no control

Only the driver moves control between the greenlets of a hub. Any other step leaves the current
greenlet in its place, starts and suspends none and hands nothing to any. On the control stacks it
leaves what lies below its task.
-/

namespace Switchyard

open World

/-- It has control or had it, or is to receive something. -/
def Greenlet.IsRoused (g : Greenlet) : Prop :=
  g.state = .running ∨ g.state = .suspended ∨ g.inbox ≠ none

/-- The greenlet is given neither control nor anything to receive. -/
structure Greenlet.Still (g g' : Greenlet) : Prop where
  hub : g'.hub = g.hub
  state : g'.state = .running ∨ g'.state = .suspended → g'.state = g.state
  inbox : g'.inbox ≠ none → g'.inbox = g.inbox

namespace Greenlet.Still

variable {g g' g'' : Greenlet}

theorem refl (g : Greenlet) : Still g g := ⟨rfl, fun _ => rfl, fun _ => rfl⟩

theorem trans (h : Still g g') (h' : Still g' g'') : Still g g'' where
  hub := h'.hub.trans h.hub
  state hs := (h'.state hs).trans (h.state (h'.state hs ▸ hs))
  inbox hi := (h'.inbox hi).trans (h.inbox (h'.inbox hi ▸ hi))

theorem isRoused (h : Still g g') (hr : g'.IsRoused) : g.IsRoused := by
  rcases hr with hr | hr | hr
  · exact .inl ((h.state (.inl hr)).symm.trans hr)
  · exact .inr (.inl ((h.state (.inr hr)).symm.trans hr))
  · exact .inr (.inr (h.inbox hr ▸ hr))

end Greenlet.Still

namespace Item

/-- What frames hold is left out. -/
def outline : Item Task → Item Task
  | .task (.frame _) => .task (.frame {})
  | i => i

/-- All of `s` still lies at the bottom of `s'`, though its frames may hold something else. -/
def Stays (s s' : List (Item Task)) : Prop := s.map outline <:+ s'.map outline

theorem Stays.refl (s : List (Item Task)) : Stays s s := List.suffix_refl _

theorem Stays.append (s top : List (Item Task)) : Stays s (top ++ s) := by
  unfold Stays
  rw [List.map_append]
  exact List.suffix_append ..

theorem Stays.modifyFrameOf (u : Frame → Frame) (s : List (Item Task)) :
    Stays s (World.modifyFrameOf u s) := by
  suffices h : (World.modifyFrameOf u s).map outline = s.map outline by
    exact ⟨[], h.symm⟩
  induction s with
  | nil => rfl
  | cons x s ih =>
    unfold World.modifyFrameOf
    split
    · rename_i he
      cases he
    · rename_i f rest he
      obtain ⟨rfl, rfl⟩ := List.cons.inj he
      rfl
    · rename_i j rest _ he
      obtain ⟨rfl, rfl⟩ := List.cons.inj he
      rw [List.map_cons, ih, List.map_cons]

end Item

open Item

/-- From `w` to `w'` no greenlet of the hub `h` is given control or anything to receive. -/
structure Unmoved (h : HubId) (w w' : World) : Prop where
  hub : ∀ s, w.hubs[h]? = some s → ∃ s', w'.hubs[h]? = some s' ∧ s'.thread = s.thread ∧
    s'.current = s.current ∧ s'.stats.switches = s.stats.switches
  greenlets : h < w.hubs.size → ∀ r g', w'.greenlet? r = some g' → g'.hub = h → g'.IsRoused →
    ∃ g, w.greenlet? r = some g ∧ g.Still g'

namespace Unmoved

variable {h : HubId} {w w' w'' : World}

theorem size (hs : Unmoved h w w') (hh : h < w.hubs.size) : h < w'.hubs.size := by
  obtain ⟨s', hs', -⟩ := hs.hub _ (Array.getElem?_eq_getElem hh)
  by_contra hn
  simp [Array.getElem?_eq_none (Nat.le_of_not_lt hn)] at hs'

theorem of_eq (hh : w'.hubs = w.hubs) (hp : w'.heap = w.heap) : Unmoved h w w' where
  hub s hs := ⟨s, by rw [hh]; exact hs, rfl, rfl, rfl⟩
  greenlets _ r g hg _ _ := ⟨g, by rwa [World.greenlet?, object?, ← hp], .refl g⟩

theorem trans (hs : Unmoved h w w') (hs' : Unmoved h w' w'') : Unmoved h w w'' where
  hub s hw := by
    obtain ⟨s₁, h₁, ht₁, hc₁, hn₁⟩ := hs.hub s hw
    obtain ⟨s₂, h₂, ht₂, hc₂, hn₂⟩ := hs'.hub s₁ h₁
    exact ⟨s₂, h₂, ht₂.trans ht₁, hc₂.trans hc₁, hn₂.trans hn₁⟩
  greenlets hh r g hg hgh hr := by
    obtain ⟨g₁, hg₁, hl₁⟩ := hs'.greenlets (hs.size hh) r g hg hgh hr
    obtain ⟨g₂, hg₂, hl₂⟩ := hs.greenlets hh r g₁ hg₁ (hl₁.hub.symm.trans hgh) (hl₁.isRoused hr)
    exact ⟨g₂, hg₂, hl₂.trans hl₁⟩

end Unmoved

/-- The same, and the stack of the thread at place `i` is not taken down. -/
structure Still (i : Nat) (h : HubId) (w w' : World) : Prop extends Unmoved h w w' where
  stack : ∀ t, w.threads[i]? = some t → ∃ t', w'.threads[i]? = some t' ∧ Stays t.stack t'.stack

namespace Still

variable {i : Nat} {h : HubId} {w w' w'' : World} {hand hand' : List Token}

theorem trans (hs : Still i h w w') (hs' : Still i h w' w'') : Still i h w w'' where
  toUnmoved := hs.toUnmoved.trans hs'.toUnmoved
  stack t ht := by
    obtain ⟨t₁, ht₁, h₁⟩ := hs.stack t ht
    obtain ⟨t₂, ht₂, h₂⟩ := hs'.stack t₁ ht₁
    exact ⟨t₂, ht₂, h₁.trans h₂⟩

theorem after (hs' : Still i h w' w'') (hs : Still i h w w') : Still i h w w'' := hs.trans hs'

theorem of_eq (hh : w'.hubs = w.hubs) (hp : w'.heap = w.heap) (ht : w'.threads = w.threads) :
    Still i h w w' where
  toUnmoved := .of_eq hh hp
  stack t h := ⟨t, by rw [ht]; exact h, .refl _⟩

theorem refl (w : World) : Still i h w w := of_eq rfl rfl rfl

theorem of_quiet (hq : Quiet w w') : Still i h w w' where
  hub s hs := ⟨s, by rw [hq.hubs]; exact hs, rfl, rfl, rfl⟩
  greenlets _ r g hg _ _ := ⟨g, by rwa [hq.greenlet?] at hg, .refl g⟩
  stack t ht := by
    obtain ⟨t', ht', hst, -⟩ := hq.getElem?_threads ht
    exact ⟨t', ht', hst ▸ .refl _⟩

theorem modifyHub {k : HubId} {u : Hub → Hub}
    (hu : k ≠ h ∨ ∀ s, (u s).thread = s.thread ∧ (u s).current = s.current ∧
      (u s).stats.switches = s.stats.switches) :
    Still i h w (w.modifyHub k u) where
  hub s hs := by
    simp only [World.modifyHub, Array.getElem?_modify]
    split
    · exact ⟨u s, by simp [hs], hu.resolve_left (absurd ‹_›) s⟩
    · exact ⟨s, hs, rfl, rfl, rfl⟩
  greenlets _ _ g hg _ _ := ⟨g, hg, .refl g⟩
  stack t ht := ⟨t, ht, .refl _⟩

theorem modifyThread {u : Thread → Thread}
    (hu : w.active - 1 ≠ i ∨ ∀ t, Stays t.stack (u t).stack) :
    Still i h w (w.modifyThread u) where
  hub s hs := ⟨s, hs, rfl, rfl, rfl⟩
  greenlets _ _ g hg _ _ := ⟨g, hg, .refl g⟩
  stack t ht := by
    simp only [World.modifyThread, Array.getElem?_modify]
    split
    · exact ⟨u t, by simp [ht], hu.resolve_left (absurd ‹_›) t⟩
    · exact ⟨t, ht, .refl _⟩

theorem push (ts : List Task) : Still i h w (w.push ts) := modifyThread (.inr fun _ => .append ..)

theorem fail (p : Panic) : Still i h w (w.fail p) :=
  (push [.fail p]).trans (modifyThread (.inr fun _ => .refl _))

theorem setControl {c : Control Task}
    (hc : w.active - 1 ≠ i ∨ Stays w.thread.stack c.stack) : Still i h w (w.setControl c) where
  hub s hs := ⟨s, hs, rfl, rfl, rfl⟩
  greenlets _ _ g hg _ _ := ⟨g, hg, .refl g⟩
  stack t ht := by
    simp only [World.setControl, World.modifyThread, Array.getElem?_modify]
    split
    · rename_i he
      subst he
      have hw : w.thread = t := by simp [World.thread, ht]
      exact ⟨{ t with stack := c.stack }, by simp [ht], hw ▸ hc.resolve_left (absurd rfl)⟩
    · exact ⟨t, ht, .refl _⟩

theorem modifyObject {r : Ref} {u : Object → Object}
    (hu : ∀ o, w.object? r = some o → ∀ g', (u o).value = .greenlet g' → g'.hub = h → g'.IsRoused →
      ∃ g, o.value = .greenlet g ∧ g.Still g') : Still i h w (w.modifyObject r u) where
  hub s hs := ⟨s, hs, rfl, rfl, rfl⟩
  greenlets _ q g hg hgh hr := by
    obtain ⟨n, ho⟩ := greenlet?_eq_some_iff.mp hg
    rw [object?_modifyObject] at ho
    split at ho
    · subst_vars
      obtain ⟨⟨m, v⟩, ho', he⟩ := Option.map_eq_some_iff.mp ho
      obtain ⟨g₀, hv, hs⟩ := hu _ ho' g (by rw [he]) rfl hr
      obtain rfl : v = .greenlet g₀ := hv
      exact ⟨g₀, greenlet?_eq_some_iff.mpr ⟨m, ho'⟩, hs⟩
    · exact ⟨g, greenlet?_eq_some_iff.mpr ⟨n, ho⟩, .refl g⟩
  stack t ht := ⟨t, ht, .refl _⟩

theorem setCount {r : Ref} {u : Object → Object} (hu : ∀ o, (u o).value = o.value) :
    Still i h w (w.modifyObject r u) :=
  modifyObject fun o _ g hg _ _ => ⟨g, (hu o).symm.trans hg, .refl g⟩

theorem retain (r : Ref) : Still i h w (w.retain r) := setCount fun _ => rfl

theorem modifyGreenlet {r : Ref} {u : Greenlet → Greenlet}
    (hu : ∀ g, w.greenlet? r = some g → (u g).hub = h → g.Still (u g)) :
    Still i h w (w.modifyGreenlet r u) := by
  refine modifyObject fun o ho g' hg' hh _ => ?_
  obtain ⟨n, v⟩ := o
  cases v with
  | greenlet g =>
    obtain rfl : u g = g' := by simpa using hg'
    exact ⟨g, rfl, hu g (greenlet?_eq_some_iff.mpr ⟨n, ho⟩) hh⟩
  | _ => cases hg'

theorem strip {r : Ref} {u : Greenlet → Greenlet} (hu : ∀ g, (u g).hub = g.hub ∧
      ((u g).state = g.state ∨ (u g).state = .dead) ∧ ((u g).inbox = g.inbox ∨ (u g).inbox = none)) :
    Still i h w (w.modifyGreenlet r u) :=
  modifyGreenlet fun g _ _ => by
    obtain ⟨hh, hs, hi⟩ := hu g
    refine ⟨hh, fun hr => hs.resolve_right fun hd => ?_, fun hn => hi.resolve_right hn⟩
    rw [hd] at hr
    simp at hr

theorem alloc {v : Value}
    (hv : h < w.hubs.size → ∀ g, v = .greenlet g → g.hub = h → ¬ g.IsRoused) :
    Still i h w (w.alloc v).2 where
  hub s hs := ⟨s, hs, rfl, rfl, rfl⟩
  greenlets hh q g hg hgh hr := by
    obtain ⟨n, ho⟩ := greenlet?_eq_some_iff.mp hg
    rw [object?_alloc] at ho
    split at ho
    · cases ho
      exact absurd hr (hv hh g rfl hgh)
    · exact ⟨g, greenlet?_eq_some_iff.mpr ⟨n, ho⟩, .refl g⟩
  stack t ht := ⟨t, ht, .refl _⟩

theorem erase (r : Ref) : Still i h w (w.erase r) where
  hub s hs := ⟨s, hs, rfl, rfl, rfl⟩
  greenlets hh q g hg hgh hr := by
    obtain ⟨n, ho⟩ := greenlet?_eq_some_iff.mp hg
    rw [object?_erase] at ho
    split at ho
    · cases ho
    · exact ⟨g, greenlet?_eq_some_iff.mpr ⟨n, ho⟩, .refl g⟩
  stack t ht := ⟨t, ht, .refl _⟩

theorem createHub (w : World) : Still i h w w.createHub.2 := by
  obtain ⟨-, id, hq⟩ := createHub_quiet w
  have h₁ : Still i h w ((w.alloc (.greenlet (w.newMain id))).2.retain w.heap.size) := by
    refine (alloc fun hh g hg hgh => ?_).trans (retain _)
    cases hg
    exact absurd hgh (Nat.ne_of_gt hh)
  refine (h₁.trans ?_).trans (of_quiet hq)
  refine ⟨⟨fun s hs => ⟨s, ?_, rfl, rfl, rfl⟩, fun _ _ g hg _ _ => ⟨g, hg, .refl g⟩⟩,
    fun t ht => ⟨t, ht, .refl _⟩⟩
  have hlt : h < w.hubs.size := by
    by_contra hn
    have he : ((w.alloc (.greenlet (w.newMain id))).2.retain w.heap.size).hubs = w.hubs := rfl
    rw [he, Array.getElem?_eq_none (Nat.le_of_not_lt hn)] at hs
    cases hs
  simp only [Array.getElem?_push]
  rw [if_neg (Nat.ne_of_lt hlt)]
  exact hs

theorem hire (t : Thread) (a : ThreadId) :
    Still i h w { w with threads := w.threads.push t, active := a } where
  hub s hs := ⟨s, hs, rfl, rfl, rfl⟩
  greenlets _ _ g hg _ _ := ⟨g, hg, .refl g⟩
  stack u hu := by
    refine ⟨u, ?_, .refl _⟩
    have hlt : i < w.threads.size := by
      by_contra hn
      rw [Array.getElem?_eq_none (Nat.le_of_not_lt hn)] at hu
      cases hu
    simp only [Array.getElem?_push]
    rw [if_neg (Nat.ne_of_lt hlt)]
    exact hu

theorem effect (e : Effect .full hand w hand' w') : Still i h w w' := by
  induction e with
  | trade => exact refl _
  | quiet hq => exact of_quiet hq
  | trans _ _ ih ih' => exact ih.trans ih'
  | push | call | collect => exact push _
  | frame => exact modifyThread (.inr fun _ => .modifyFrameOf _ _)
  | register f =>
    exact (alloc fun _ g hg => by cases hg).trans (modifyThread (.inr fun _ => .refl _))
  | take => exact modifyThread (.inr fun _ => .refl _)
  | tables => exact of_eq rfl rfl rfl
  | fail p => exact fail p
  | alloc v hv => exact alloc fun _ g hg => by rw [hg] at hv; cases hv
  | retain r => exact retain r
  | holdHub => exact modifyHub (.inr fun _ => ⟨rfl, rfl, rfl⟩)
  | makeHome => exact (createHub _).trans (modifyThread (.inr fun _ => .refl _))
  | create _ _ hc =>
    obtain ⟨-, -, -, id, hq⟩ := createGreenlet_ok hc
    refine Still.trans ?_ (of_quiet hq)
    refine ((retain _).trans (alloc fun _ g hg _ => ?_)).trans (modifyHub (.inr fun _ => ⟨rfl, rfl, rfl⟩))
    cases hg
    rintro (hr | hr | hr)
    · cases hr
    · cases hr
    · exact hr rfl
  | setParent _ _ hs =>
    obtain ⟨-, -, rfl⟩ := setParent_ok hs
    exact (retain _).trans (strip fun _ => ⟨rfl, .inl rfl, .inl rfl⟩)
  | spawn steps => exact (push [.join _]).trans (hire _ _)

end Still

namespace Control

variable {k : Control Task} {f : FiberId} {b : Bool}

theorem stays_destroy : Stays k.stack (k.destroy f b).1.stack := by
  unfold Control.destroy
  dsimp only
  split
  · exact .append ..
  · split
    · exact .refl _
    · rename_i stack _ _
      change Stays k.stack (stack ++ .base f true :: k.stack)
      rw [List.append_cons]
      exact .append ..
  · exact .refl _
  · exact .refl _
  · exact .refl _

theorem stays_unshare : Stays k.stack (k.unshare f b).1.stack := by
  unfold Control.unshare
  dsimp only
  split
  · exact stays_destroy (k := (k.modify f _).modify f _)
  · exact .refl _

theorem stays_resume {k' : Control Task} (h : k.resume f = some k') : Stays k.stack k'.stack := by
  unfold Control.resume at h
  split at h
  · cases h
  · rename_i entry _ _
    cases h
    change Stays k.stack (entry.map .task ++ .base f false :: k.stack)
    rw [List.append_cons]
    exact .append ..
  · rename_i stack _
    cases h
    change Stays k.stack (stack ++ .base f false :: k.stack)
    rw [List.append_cons]
    exact .append ..
  · cases h
    exact .refl _
  · cases h
    exact .refl _

end Control

namespace Still

variable {i : Nat} {h k : HubId} {w w' : World} {r target : Ref} {f : FiberId} {p : Payload}

theorem takeControl {c : Control Task × Bool} (hc : Stays w.control.stack c.1.stack) :
    Still i h w (w.takeControl c) := by
  unfold World.takeControl
  dsimp only
  split
  · exact .after (fail _) (setControl (.inr hc))
  · exact setControl (.inr hc)

theorem unshare (f : FiberId) : Still i h w (w.unshare f) := takeControl Control.stays_unshare

theorem unwind (f : FiberId) : Still i h w (w.unwind f) := by
  unfold World.unwind
  dsimp only
  have h₁ : Still i h w (w.modifyFiber f fun s => { s with cancelling := true }) :=
    of_eq rfl rfl rfl
  split
  · exact .after (of_quiet (.write _ _)) h₁
  · exact .after (takeControl Control.stays_destroy) (.after (push _) h₁)

theorem abandonStack (r : Ref) : Still i h w (w.abandonStack r).2 := by
  have h₁ : Still i h w (w.modifyGreenlet r fun g => { g with state := .dead, fiber := none }) :=
    strip fun _ => ⟨rfl, .inr rfl, .inl rfl⟩
  unfold World.abandonStack
  dsimp only
  split
  · exact h₁
  · split
    · exact h₁
    · refine .after (setControl (.inr ?_)) h₁
      refine List.IsSuffix.trans ?_ Control.stays_unshare
      rw [Control.stack_abandon]
      exact Stays.refl _

theorem modifyStats {u : Stats → Stats} (hu : ∀ s, (u s).switches = s.switches) :
    Still i h w (w.modifyStats k u) :=
  modifyHub (.inr fun _ => ⟨rfl, rfl, hu _⟩)

theorem defer (k : HubId) (r : Ref) : Still i h w (w.defer k r) := by
  unfold World.defer
  exact .after (modifyStats fun _ => rfl) (.after (modifyHub (.inr fun _ => ⟨rfl, rfl, rfl⟩))
    (of_quiet (.write _ _)))

theorem releaseHook (r : Ref) : Still i h w (w.releaseHook r) := by
  have hkept : Still i h w (w.modifyObject r fun o => { o with count := 1 }) := setCount fun _ => rfl
  unfold World.releaseHook
  dsimp only
  split
  · refine .after (push _) ?_
    split
    · exact modifyHub (.inr fun _ => ⟨rfl, rfl, rfl⟩)
    · exact refl w
  split
  · exact .after (push _) (.after (abandonStack r) (of_quiet (.write _ _)))
  split
  · exact .after (push _) (.after (modifyStats fun _ => rfl) (.after (abandonStack r)
      (.after (modifyHub (.inr fun _ => ⟨rfl, rfl, rfl⟩)) (of_quiet (.write _ _)))))
  split
  · exact .after (modifyHub (.inr fun _ => ⟨rfl, rfl, rfl⟩)) (.after (of_quiet (.write _ _)) hkept)
  split
  · exact .after (push _) (.after (modifyHub (.inr fun _ => ⟨rfl, rfl, rfl⟩)) hkept)
  · exact .after (defer _ _) hkept

theorem lastDropped (r : Ref) (v : Value) : Still i h w (w.lastDropped r v) := by
  unfold World.lastDropped
  split
  · split
    · exact push _
    · exact releaseHook r
  · rename_i name lives
    have h₁ : Still i h w (w.modifyObject r fun _ => ⟨1, .phoenix name lives⟩) :=
      modifyObject fun _ _ g' hg' => by cases hg'
    have h₂ := h₁.trans (of_quiet (.event "revive" [.text name, .nat lives]))
    exact .after (push _) (h₂.trans (of_eq rfl rfl rfl))
  · exact push _

theorem drop (r : Ref) : Still i h w (w.drop r) := by
  unfold World.drop
  split
  · exact refl w
  · dsimp only
    have h₁ : Still i h w (w.modifyObject r fun o => { o with count := o.count - 1 }) :=
      setCount fun _ => rfl
    split
    · exact h₁.trans (lastDropped _ _)
    · exact h₁

theorem dropPinned (p : Pinned FiberId) : Still i h w (w.dropPinned p) := by
  unfold World.dropPinned
  split
  · exact unshare _
  · exact refl w

theorem destroy (r : Ref) : Still i h w (w.destroy r) := by
  unfold World.destroy
  dsimp only
  have h₁ : Still i h w { w with lock := (w.lock.ensure? w.active).getD w.lock } :=
    of_eq rfl rfl rfl
  split
  · exact .after (push _) h₁
  · exact .after (push _) (.after (of_quiet (.event _ _)) h₁)
  · exact .after (push _) (.after (strip fun _ => ⟨rfl, .inl rfl, .inr rfl⟩) h₁)
  · exact .after (push _) h₁

theorem release (k : HubId) (r : Ref) : Still i h w (w.release k r) := by
  have h₁ : Still i h w (w.modifyGreenlet r fun g => { g with state := .dead, fiber := none }) :=
    strip fun _ => ⟨rfl, .inr rfl, .inl rfl⟩
  unfold World.release
  dsimp only
  split
  · exact .after (push _) h₁
  · split
    · exact .after (push _) (.after (modifyHub (.inr fun _ => ⟨rfl, rfl, rfl⟩)) h₁)
    · exact .after (unwind _) (.after (push _) (.after (of_quiet (.write _ _))
        (.after (modifyHub (.inr fun _ => ⟨rfl, rfl, rfl⟩)) h₁)))

theorem released (k : HubId) (r : Ref) : Still i h w (w.released k r) :=
  .after (push _) (.after (modifyStats fun _ => rfl) (modifyHub (.inr fun _ => ⟨rfl, rfl, rfl⟩)))

theorem drain (k : HubId) : Still i h w (w.drain k) := by
  unfold World.drain
  dsimp only
  split
  · exact refl w
  · have h₁ : Still i h w (w.modifyHub k fun s => { s with deferred := [], foreign := [] }) :=
      modifyHub (.inr fun _ => ⟨rfl, rfl, rfl⟩)
    split
    · exact .after (modifyStats fun _ => rfl) h₁
    · exact .after (push _) (.after (modifyStats fun _ => rfl) h₁)

theorem leaveHub (k : HubId) : Still i h w (w.leaveHub k) := by
  unfold World.leaveHub
  dsimp only
  split
  · exact modifyHub (.inr fun _ => ⟨rfl, rfl, rfl⟩)
  · exact .after (push _) (modifyHub (.inr fun _ => ⟨rfl, rfl, rfl⟩))

theorem shutGreenlet (r : Ref) : Still i h w (w.shutGreenlet r).2.2 :=
  .after (strip fun _ => ⟨rfl, .inl rfl, .inr rfl⟩) (abandonStack r)

theorem foldl_shutNext (rs : List Ref) (n : Nat) (drops : List Task) :
    Still i h w (rs.foldl shutNext (n, drops, w)).2.2 := by
  induction rs generalizing n drops w with
  | nil => exact refl w
  | cons r rs ih => exact (shutGreenlet r).trans (ih ..)

theorem teardown (k : HubId) : Still i h w (w.teardown k) := by
  unfold World.teardown
  dsimp only
  split
  · exact refl w
  · exact .after (push _) (.after (modifyStats fun _ => rfl) (.after (foldl_shutNext _ _ _)
      (modifyHub (.inr fun _ => ⟨rfl, rfl, rfl⟩))))

theorem setState_dead (r : Ref) : Still i h w (w.setState r .dead) :=
  strip fun g => ⟨rfl, by simp only [RunState.moveTo]; split <;> simp, .inl rfl⟩

theorem exitSlots : Still i h w w.exitSlots := by
  unfold World.exitSlots
  dsimp only
  split
  · exact refl w
  · exact .after (push _) (modifyThread (.inr fun _ => .refl _))
  · exact .after (push _) (modifyThread (.inr fun _ => .refl _))

theorem exitThread : Still i h w w.exitThread := by
  unfold World.exitThread
  dsimp only
  split
  · exact .after (push _) (of_eq rfl rfl rfl)
  · exact push _

theorem endHubs : Still i h w w.endHubs := by
  unfold World.endHubs
  split
  · exact refl w
  · exact .after (push _) (.after (of_quiet (.event _ _)) (of_eq rfl rfl rfl))

theorem foreign {u : Greenlet → Greenlet} (hb : w.Belongs r k) (hk : k ≠ h)
    (hu : ∀ g, (u g).hub = g.hub) : Still i h w (w.modifyGreenlet r u) :=
  modifyGreenlet fun g hg hh => by
    obtain ⟨n, ho⟩ := greenlet?_eq_some_iff.mp hg
    obtain ⟨g', hg', hgk⟩ := hb.greenlet? ho
    obtain rfl : g' = g := Option.some.inj (hg'.symm.trans hg)
    exact absurd (hgk.symm.trans ((hu g').symm.trans hh)) hk

theorem raise (e : SwitchError) : Still i h w (w.raise e) :=
  have hr : Effect .full [] w [] (w.raise e) := .raise e
  effect hr

theorem deliver (p : Payload) : Still i h w (w.deliver p) :=
  have hd : Effect .full (p.tokens ++ []) w [] (w.deliver p) := .deliver p fun _ _ => trivial
  effect hd

theorem registerSwitch (hk : k ≠ h) (ht : w.Belongs target k)
    (hc : w.Belongs (w.hub k).current k) : Still i h w (w.registerSwitch k target).2 := by
  by_cases hth : (w.greenlet target).thread = (w.hub k).thread
  · obtain ⟨v, hv, hq⟩ := registerSwitch_ok hth
    rw [hv]
    have h₁ : Later w ((w.retain target).modifyHub k fun s => { s with current := target }) :=
      (Later.retain target).trans (.modifyHub' k fun _ => ⟨rfl, rfl, rfl⟩)
    have h₂ := h₁.trans (.modifyGreenlet (w.hub k).current (f := fun g =>
      { g with state := if g.state = .running then .suspended else g.state }) fun g _ =>
        ⟨rfl, rfl, rfl, rfl, fun hd => by simp [hd], id⟩)
    refine .after (of_quiet hq) ?_
    exact .after (modifyHub (.inl hk)) (.after (foreign (ht.later h₂) hk fun _ => rfl)
      (.after (foreign (hc.later h₁) hk fun _ => rfl) (.after (modifyHub (.inl hk)) (retain target))))
  · unfold World.registerSwitch
    dsimp only
    rw [if_pos (by simpa using hth)]
    exact raise _

theorem switch (k : HubId) (target : Ref) (p : Payload) : Still i h w (w.switch k target p) := by
  unfold World.switch
  split
  · exact .after (push _) (raise _)
  · dsimp only
    split
    · exact .after (deliver p) (of_quiet (.write _ _))
    · split
      · unfold World.switchFromFiber
        dsimp only
        split
        · exact .after (push _) (.after (raise _) (retain target))
        · exact .after (push _) (.after (modifyHub (.inr fun _ => ⟨rfl, rfl, rfl⟩)) (retain target))
      · exact .after (push _) (retain target)

theorem drive (k : HubId) (target : Ref) (p : Payload) : Still i h w (w.drive k target p) := by
  unfold World.drive
  dsimp only
  split
  · exact .after (push _) (raise _)
  · exact .after (push _) (modifyHub (.inr fun _ => ⟨rfl, rfl, rfl⟩))

theorem nextLive (k : HubId) (r : Ref) : Still i h w (w.nextLive k r).2 := by
  unfold World.nextLive
  dsimp only
  split
  · exact retain _
  · exact .after (retain _) (of_quiet (.write _ _))

theorem driveTarget (hk : k ≠ h) (ht : w.Belongs target k) (hc : w.Belongs (w.hub k).current k)
    (p : Payload) : Still i h w (w.driveTarget k target p) := by
  unfold World.driveTarget
  dsimp only
  split
  · have h₁ := registerSwitch (i := i) hk ht hc
    split
    · rename_i hr
      rw [hr] at h₁
      exact .after (push _) h₁
    · rename_i hr
      rw [hr] at h₁
      exact .after (push _) h₁
  · split
    · exact .after (push _) (.after (strip fun _ => ⟨rfl, .inr rfl, .inl rfl⟩) (of_quiet (.write _ _)))
    · split
      · refine .after (push _) ?_
        refine .after (foreign (k := k) ?_ hk fun _ => rfl) (setControl (.inr (.refl _)))
        exact ht
      · exact .after (push _) (.after (modifyStats fun _ => rfl)
          (.after (strip fun _ => ⟨rfl, .inl rfl, .inl rfl⟩) (setControl (.inr (.refl _)))))
      · exact .after (push _) (strip fun _ => ⟨rfl, .inl rfl, .inl rfl⟩)

theorem driveRegister (hk : k ≠ h) (ht : w.Belongs target k) (hc : w.Belongs (w.hub k).current k)
    (f : FiberId) : Still i h w (w.driveRegister k target f) := by
  have h₁ := registerSwitch (i := i) hk ht hc
  unfold World.driveRegister
  split
  · rename_i hr
    rw [hr] at h₁
    exact .after (push _) h₁
  · rename_i hr
    rw [hr] at h₁
    exact .after (push _) h₁

theorem driveRefused (k : HubId) (target : Ref) (e : SwitchError) :
    Still i h w (w.driveRefused k target e) :=
  .after (push _) (.after (retain _) (of_quiet (.write _ _)))

theorem driveKilled (k : HubId) (target : Ref) (p : Payload) :
    Still i h w (w.driveKilled k target p) :=
  .after (push _) (nextLive k target)

theorem driveResume (k : HubId) (target : Ref) (f : FiberId) :
    Still i h w (w.driveResume k target f) := by
  have h₁ : Still i h w ((w.modifyHub k fun s => { s with runningFiber := true }).push
      [.driveBack k target f]) := .after (push _) (modifyHub (.inr fun _ => ⟨rfl, rfl, rfl⟩))
  unfold World.driveResume
  dsimp only
  split
  · rename_i hr
    exact .after (setControl (.inr (Control.stays_resume hr))) h₁
  · exact .after (fail _) h₁

theorem driveBack (k : HubId) (target : Ref) (f : FiberId) :
    Still i h w (w.driveBack k target f) := by
  have h₁ : Still i h w (w.modifyHub k fun s => { s with runningFiber := false, outgoing := none }) :=
    modifyHub (.inr fun _ => ⟨rfl, rfl, rfl⟩)
  unfold World.driveBack
  dsimp only
  split
  · exact .after (push _) (.after (modifyStats fun _ => rfl)
      (.after (strip fun _ => ⟨rfl, .inr rfl, .inl rfl⟩) h₁))
  · exact .after (push _) h₁

theorem driveFinished (k : HubId) (target : Ref) (out : Option Outgoing) :
    Still i h w (w.driveFinished k target out) := by
  unfold World.driveFinished
  dsimp only
  split <;> exact .after (push _) (.after (nextLive k target) (of_quiet (.write _ _)))

theorem driveSuspended (k : HubId) (target : Ref) (out : Option Outgoing) :
    Still i h w (w.driveSuspended k target out) := by
  rcases out with _ | (⟨next, p⟩ | p)
  · exact .after (push _) (nextLive k target)
  · exact push _
  · exact .after (push _) (nextLive k target)

theorem suspend (hi : w.active - 1 ≠ i) (k : HubId) (f : FiberId) : Still i h w (w.suspend k f) := by
  unfold World.suspend
  split
  · split
    · exact setControl (.inl hi)
    · exact fail _
  · exact .after (push _) (modifyHub (.inr fun _ => ⟨rfl, rfl, rfl⟩))

theorem resumed (k : HubId) : Still i h w (w.resumed k) :=
  .after (deliver _) (strip fun _ => ⟨rfl, .inl rfl, .inr rfl⟩)

theorem postResult (k : HubId) (f : FiberId) (p : Payload) : Still i h w (w.postResult k f p) := by
  unfold World.postResult
  split
  · exact push _
  · exact .after (push _) (modifyHub (.inr fun _ => ⟨rfl, rfl, rfl⟩))

end Still

namespace Task

/-- The hub that the task may give another current greenlet. -/
def moves? : Task → Option HubId
  | driveTarget h .. | driveRegister h .. | teardownCurrent h _ => some h
  | _ => none

def isSuspend : Task → Bool
  | suspend .. => true
  | _ => false

end Task

namespace Still

variable {i : Nat} {h : HubId} {w : World} {t : Task} {below : List (Item Task)}

theorem runTask (hw : w.Seated) (hs : t.isSignal = false)
    (hf : ∀ st rest, t = .steps (st :: rest) → st.isFacade = true)
    (hi : t.isSuspend = true → w.active - 1 ≠ i)
    (hm : ∀ k, t.moves? = some k → k ≠ h ∧ w.Belongs (w.hub k).current k)
    (ht : t.Filed w (w.active - 1) below) : Still i h w (w.runTask t) := by
  by_cases hscript : t.isScript = true
  · exact effect (.runTask hw hscript (Licence.grants_full _ _))
  cases t with
  | drop r => exact drop r
  | dropPinned p => exact dropPinned p
  | destroy r => exact destroy r
  | reclaim r => exact (erase r).trans (of_eq rfl rfl rfl)
  | unlock => exact of_eq rfl rfl rfl
  | unshare f => exact unshare f
  | settle f => exact of_eq rfl rfl rfl
  | leaveHub k => exact leaveHub k
  | dropHubFields k => exact .after (push _) (modifyHub (.inr fun _ => ⟨rfl, rfl, rfl⟩))
  | release k r => exact release k r
  | released k r => exact released k r
  | drain k => exact drain k
  | teardown k => exact teardown k
  | teardownQueues k n => exact .after (push _) (modifyHub (.inr fun _ => ⟨rfl, rfl, rfl⟩))
  | teardownCurrent k n =>
    exact .after (push _) (.after (modifyHub (.inl (hm k rfl).1)) (.after (retain _) (retain _)))
  | teardownEnd k main n =>
    exact .after (push _) (.after (of_quiet (.write _ _)) (setState_dead main))
  | switch k target p => exact switch k target p
  | suspend k f => exact suspend (hi rfl) k f
  | resumed k => exact resumed k
  | drive k target p => exact drive k target p
  | driveTarget k target p => exact driveTarget (hm k rfl).1 ht.2 (hm k rfl).2 p
  | driveKilled k target p => exact driveKilled k target p
  | driveRefused k target e => exact driveRefused k target e
  | driveRegister k target f => exact driveRegister (hm k rfl).1 ht.2 (hm k rfl).2 f
  | driveResume k target f => exact driveResume k target f
  | driveBack k target f => exact driveBack k target f
  | driveFinished k target out => exact driveFinished k target out
  | driveSuspended k target out => exact driveSuspended k target out
  | driveMain k target p => exact push _
  | endDriving k => exact modifyHub (.inr fun _ => ⟨rfl, rfl, rfl⟩)
  | entry => exact refl w
  | steps rest =>
    cases rest with
    | nil => exact absurd rfl hscript
    | cons st rest => exact absurd (hf st rest rfl) hscript
  | endHubs => exact endHubs
  | exitThread => exact exitThread
  | exitSlots => exact exitSlots
  | answer | leave | hand | result | fail => cases hs
  | _ => exact absurd rfl hscript

theorem pass (u t : Task) : Still i h w (w.pass u t) := push _

theorem answer (hw : w.Seated) (outcome : Except SwitchError (Args Obj)) (u : Task) :
    Still i h w (World.answer outcome u w) := by
  cases u with
  | switched name target catches => exact effect (.switched (.inl trivial) name target catches outcome)
  | rally r => exact effect (.rallyAnswered hw r outcome)
  | _ => exact pass _ _

theorem leave (flow : Flow) (u : Task) : Still i h w (World.leave flow u w) := by
  unfold World.leave
  split
  · split
    · exact .after (push _) (of_quiet (.event _ _))
    · exact push _
  · exact of_quiet (.event _ _)
  · exact push _
  · exact pass _ _

theorem hand (last : Args Obj) (flow : Flow) (u : Task) :
    Still i h w (World.hand last flow u w) := by
  cases u with
  | nestEnd how => exact effect (.nestEnd (.inl trivial) how last flow)
  | bodyEnd | rootEnd => exact push _
  | _ => exact pass _ _

theorem result (p : Payload) (u : Task) : Still i h w (World.result p u w) := by
  cases u with
  | entry k f => exact postResult k f p
  | _ => exact pass _ _

theorem failTask (p : Panic) (u : Task) : Still i h w (World.failTask p u w) := by
  have hcalm : Still i h w w.calm := of_quiet .calm
  unfold World.failTask
  split
  · dsimp only
    have hnote (name : String) (ds : List Datum) : Still i h w (w.calm.note name ds) :=
      .after (of_quiet (.event _ _)) hcalm
    split
    · exact .after (fail p) (hnote _ _)
    · exact hnote _ _
  · exact .after (of_quiet (.event _ _)) hcalm
  · split
    · exact push _
    · exact .after (postResult _ _ _) hcalm
  · exact .after exitThread (.after (modifyThread (.inr fun _ => .refl _)) hcalm)
  · exact pass _ _

theorem land (f : FiberId) (forced : Bool) : Still i h w (w.setControl (w.control.land f forced)) :=
  setControl (.inr (.refl _))

theorem failBase (p : Panic) (f : FiberId) (forced : Bool) :
    Still i h w (World.failBase p f forced w) := by
  unfold World.failBase
  dsimp only
  split
  · exact .after (of_quiet .calm) (land f forced)
  · exact .after (push _) (land f forced)

end Still

namespace Item

/-- What lies below the task on top, and below what that task is about. -/
def cut : List (Item Task) → List (Item Task)
  | .task t :: s => if t.isSignal then s.tail else s
  | s => s.tail

end Item

namespace Still

variable {i : Nat} {h : HubId} {w : World}

theorem setStack {s : List (Item Task)} (hs : Stays s w.thread.stack) :
    Still i h (w.setStack s) w where
  hub s hs := ⟨s, hs, rfl, rfl, rfl⟩
  greenlets _ _ g hg _ _ := ⟨g, hg, .refl g⟩
  stack t ht := by
    simp only [World.setStack, World.modifyThread, Array.getElem?_modify] at ht
    split at ht
    · obtain ⟨u, hu, rfl⟩ := Option.map_eq_some_iff.mp ht
      subst_vars
      have hw : w.thread = u := by simp [World.thread, hu]
      exact ⟨u, hu, hw ▸ hs⟩
    · exact ⟨t, ht, .refl _⟩

theorem setStack_setStack (w : World) (s s' : List (Item Task)) :
    (w.setStack s).setStack s' = w.setStack s' := by
  unfold World.setStack World.modifyThread
  congr 1
  ext j
  · simp
  · simp only [Array.getElem_modify]
    split <;> rfl

theorem unstack (hw : w.Seated) (s top : List (Item Task)) :
    Still i h (w.setStack s) (w.setStack (top ++ s)) := by
  have hs : Stays s (w.setStack (top ++ s)).thread.stack := by
    rw [stack_setStack hw]
    exact .append s top
  have := setStack (i := i) (h := h) hs
  rwa [setStack_setStack] at this

theorem signal (hw : w.Seated) {run : Task → World → World}
    (hr : ∀ (v : World) u, v.Seated → Still i h v (run u v)) (rest : List (Item Task)) :
    Still i h (w.setStack rest.tail) ((w.setStack rest).signal run) := by
  cases rest with
  | nil =>
    rw [World.signal, stack_setStack hw]
    exact refl _
  | cons x below =>
    cases x with
    | task u =>
      rw [signal_eq hw, setStack_setStack]
      exact hr _ u ((seated_modifyThread _).mpr hw)
    | base f forced =>
      rw [World.signal, stack_setStack hw]
      exact unstack hw below [.base f forced]

theorem fault (hw : w.Seated) (p : Panic) (rest : List (Item Task)) :
    Still i h (w.setStack rest.tail) ((w.setStack rest).fault p) := by
  unfold World.fault
  rw [stack_setStack hw]
  cases rest with
  | nil => exact refl _
  | cons x below =>
    cases x with
    | task u =>
      dsimp only
      rw [setStack_setStack]
      exact failTask p u
    | base f forced =>
      dsimp only
      rw [setStack_setStack]
      exact failBase p f forced

/-- A step moves no control of the hub `h` unless its task does. -/
theorem next (hw : w.Seated) (ho : w.OnFacade)
    (hf : Item.Filed w (w.active - 1) w.thread.stack)
    (hi : ∀ t rest, w.thread.stack = .task t :: rest → t.isSuspend = true → w.active - 1 ≠ i)
    (hm : ∀ t rest k, w.thread.stack = .task t :: rest → t.moves? = some k →
      k ≠ h ∧ w.Belongs (w.hub k).current k) :
    Still i h (w.setStack (Item.cut w.thread.stack)) w.next := by
  unfold World.next
  split
  · rename_i hs
    have hst : Still i h (w.setStack (Item.cut w.thread.stack)) w :=
      setStack (by rw [hs]; exact .refl _)
    exact hst.trans (of_eq rfl rfl rfl)
  · rename_i f forced below hs
    rw [hs]
    exact land f forced
  · rename_i t below hs
    rw [hs]
    by_cases hσ : t.isSignal = true
    · simp only [Item.cut, hσ, if_true]
      cases t with
      | answer outcome => exact signal hw (fun _ u hv => answer hv outcome u) below
      | leave flow => exact signal hw (fun _ u _ => leave flow u) below
      | hand last flow => exact signal hw (fun _ u _ => hand last flow u) below
      | result p => exact signal hw (fun _ u _ => result p u) below
      | fail p => exact fault hw p below
      | _ => cases hσ
    · simp only [Item.cut, hσ]
      have hl : Later w (w.setStack below) := .of_eq rfl rfl rfl
      have hfile : Item.Filed w (w.active - 1) (.task t :: below) := hs ▸ hf
      refine runTask ((seated_modifyThread _).mpr hw) (by simpa using hσ) (fun st rest ht => ?_)
        (hi t below hs) (fun k hk => ?_) (Item.Filed.later (s := .task t :: below) hfile hl).1
      · exact ho st rest below (ht ▸ hs)
      · exact ⟨(hm t below k hs hk).1, (hm t below k hs hk).2.later hl⟩

end Still

end Switchyard
