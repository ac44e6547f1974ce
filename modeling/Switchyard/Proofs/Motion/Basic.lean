import Switchyard.Proofs.Effect.Run
import Switchyard.Proofs.Motion.Framed

/-!
# Motions of the machine

Whatever a task does is a sequence of a few kinds of updates: those of scripts and those of the
engine. Each says which references it takes or gives, and why it may. What every update keeps,
every task keeps.
-/

namespace Switchyard

/-- The token is counted where it is supplied, whoever claims it: a reference, a share, or the
claim to bury what nobody refers to. -/
def Token.isCounted : Token → Bool
  | object _ | grave _ | hub _ | tomb _ => true
  | sole _ | fiber _ | doom _ | urn _ => false

/-- The token is paid for wherever it goes. -/
def Token.isTraded : Token → Bool
  | sole _ | fiber _ => false
  | _ => true

/-- The token is lost only where that is allowed. -/
def Token.isKept : Token → Bool
  | object _ | doom _ | grave _ => true
  | _ => false

/-- The token is never lost where references are not. -/
def Token.isExact : Token → Bool
  | object _ | doom _ => true
  | _ => false

theorem Token.isTraded_of_isCounted {k : Token} (hk : k.isCounted = true) : k.isTraded = true := by
  cases k <;> first | rfl | cases hk

theorem Token.isTraded_of_isKept {k : Token} (hk : k.isKept = true) : k.isTraded = true := by
  cases k <;> first | rfl | cases hk

theorem Licence.loses_of_isExact {L : Licence} {k : Token} (hk : k.isExact = true)
    (hl : L.Loses k) : L.leaks := by
  cases k with
  | object | doom => exact hl
  | _ => cases hk

/-- What costs `a` is paid for with `b`. Nothing comes from nowhere, and nothing that is kept is lost
unless that is allowed. -/
def Licence.Pays (L : Licence) (a b : Token → Nat) : Prop :=
  ∀ k : Token, k.isTraded = true → a k ≤ b k ∧ (k.isKept = true → L.Loses k ∨ a k = b k)

namespace Licence.Pays

variable {L : Licence} {a b : Token → Nat}

theorem of_eq (h : ∀ k : Token, k.isTraded = true → a k = b k) : L.Pays a b :=
  fun k hk => ⟨Nat.le_of_eq (h k hk), fun _ => .inr (h k hk)⟩

theorem of_leaks (hl : L.leaks) (hg : ∀ r, L.sheds r ∨ a (.grave r) = b (.grave r))
    (h : ∀ k : Token, k.isTraded = true → a k ≤ b k) : L.Pays a b := fun k hk => by
  refine ⟨h k hk, fun _ => ?_⟩
  cases k with
  | grave r => exact hg r
  | _ => exact .inl hl

theorem le (h : L.Pays a b) {k : Token} (hk : k.isTraded = true) : a k ≤ b k := (h k hk).1

theorem le_of_isCounted (h : L.Pays a b) {k : Token} (hk : k.isCounted = true) : a k ≤ b k :=
  h.le (Token.isTraded_of_isCounted hk)

theorem widen (h : L.Pays a b) : full.Pays a b :=
  .of_leaks trivial (fun _ => .inl trivial) fun _ hk => h.le hk

theorem eq (h : L.Pays a b) {k : Token} (hk : k.isKept = true) (hl : ¬ L.Loses k) : a k = b k :=
  ((h k (Token.isTraded_of_isKept hk)).2 hk).resolve_left hl

theorem congr {a' b' : Token → Nat} (h : L.Pays a b)
    (he : ∀ k : Token, k.isTraded = true → a' k + b k = a k + b' k) : L.Pays a' b' := fun k hk => by
  obtain ⟨hle, heq⟩ := h k hk
  have := he k hk
  exact ⟨by omega, fun hx => (heq hx).imp_right fun _ => by omega⟩

end Licence.Pays

theorem Token.count_queued {k : Token} (hk : k.isTraded = true) (r : Ref) :
    (queued r).count k = [object r].count k := by
  cases k with
  | sole | fiber => cases hk
  | _ => simp [queued, List.count_cons]

theorem Token.count_cons_fiber {k : Token} (hk : k.isTraded = true) (f : FiberId)
    (l : List Token) : (fiber f :: l).count k = l.count k := by
  cases k with
  | sole | fiber => cases hk
  | _ => simp

theorem Token.count_cons_sole {k : Token} (hk : k.isTraded = true) (r : Ref)
    (l : List Token) : (sole r :: l).count k = l.count k := by
  cases k with
  | sole | fiber => cases hk
  | _ => simp

/-- The place of a greenlet in the tree is the same, and so is what it is. -/
structure Greenlet.Stays (g g' : Greenlet) : Prop where
  thread : g'.thread = g.thread
  isMain : g'.isMain = g.isMain
  hub : g'.hub = g.hub
  parent : g'.parent = g.parent

/-- At most flags, counters and queues of a hub change. -/
structure Hub.Stays (s s' : Hub) : Prop where
  thread : s'.thread = s.thread
  main : s'.main = s.main
  current : s'.current = s.current
  nodes : s'.nodes = s.nodes
  closed : s'.closed = s.closed
  disposed : s'.disposed = s.disposed
  holders : s'.holders = s.holders

/-- The value stays, or it is a phoenix that gives up a life. -/
def Value.Revives (v v' : Value) : Prop :=
  v' = v ∨ ∃ name n, v = .phoenix name (n + 1) ∧ v' = .phoenix name n

theorem Value.Revives.greenlet? {v v' : Value} (h : v.Revives v') :
    v' = v ∨ v.greenlet? = none ∧ v'.greenlet? = none := by
  refine h.imp_right ?_
  rintro ⟨name, n, rfl, rfl⟩
  exact ⟨rfl, rfl⟩

namespace World

/-- The active thread may use the references of the hub. -/
def Enters (w : World) (h : HubId) : Prop :=
  Item.keeps h w.thread.stack = true ∨ w.Reaches h

/-- Somebody keeps a reference to `r`. -/
inductive Backs (w : World) (hand : List Token) (r : Ref) : Prop where
  | hand (h : .object r ∈ hand)
  | stack (h : .object r ∈ Item.tokensOf w.thread.stack)
  | main {h : HubId} (hh : w.Enters h) (hr : (w.hub h).main = r)
  | parent {q : Ref} (h : w.parent q = some r)

def unref (r : Ref) (w : World) : World :=
  w.modifyObject r fun o => { o with count := o.count - 1 }

theorem object?_unref {w : World} {r : Ref} {o : Object} (ho : w.object? r = some o) :
    (w.unref r).object? r = some { o with count := o.count - 1 } := by
  simp [unref, object?_modifyObject, ho]

end World

/-- The fibers that must not be worked on are the same. -/
def Licence.Spares (L : Licence) (c c' : Control Task) : Prop :=
  ∀ f, ¬ L.fibers f → f < c.fibers.size → c'.fibers[f]? = c.fibers[f]?

open World in
/-- One update, or several, with the tokens in hand before and after. -/
inductive Motion (L : Licence) : List Token → World → List Token → World → Prop where
  | script {hand hand' w w'} (e : Effect L hand w hand' w') : Motion L hand w hand' w'
  | trade {hand hand' w} (h : L.Pays hand'.count hand.count) : Motion L hand w hand' w
  | trans {hand hand' hand'' w w' w''} (h : Motion L hand w hand' w')
      (h' : Motion L hand' w' hand'' w'') : Motion L hand w hand'' w''
  | lock {hand w} (l : Lock) : Motion L hand w hand { w with lock := l }
  | control {hand hand' w} {c : Control Task} (hf : w.control.Framed → c.Framed)
      (hs : L.Spares w.control c)
      (hc : w.control.Framed → ∀ k : Token, k.isTraded = true →
        c.claims k + hand'.count k ≤ w.control.claims k + hand.count k)
      (hx : w.control.Framed → ∀ k : Token, k.isKept = true → L.Loses k ∨
        c.owed k + hand'.count k = w.control.owed k + hand.count k) :
      Motion L hand w hand' (w.setControl c)
  | retain {hand w} (r : Ref) (h : w.Backs hand r) :
      Motion L hand w (.object r :: hand) (w.retain r)
  /-- One of several references goes. -/
  | release {hand w} {r : Ref} {o : Object} (hd : L.drops r) (ho : w.object? r = some o)
      (h : 1 < o.count) : Motion L (.object r :: hand) w hand (w.unref r)
  /-- The last reference goes to what no hub lists. -/
  | bury {hand w} {r : Ref} {o : Object} (hd : L.drops r) (ho : w.object? r = some o)
      (h : o.count ≤ 1) (hm : ∀ g, o.value = .greenlet g → g.isMain = true) :
      Motion L (.object r :: hand) w (.grave r :: .doom r :: hand) (w.unref r)
  /-- The last reference goes to a greenlet without a stack. Its hub, if it lives, forgets it. -/
  | retire {hand w} {r : Ref} {n : Nat} {g : Greenlet} (hd : L.drops r)
      (ho : w.object? r = some ⟨n, .greenlet g⟩) (h : n ≤ 1) (hm : g.isMain = false)
      (hf : g.fiber = none) :
      Motion L (.object r :: hand) w (.grave r :: .doom r :: hand)
        (if w.hubLives g.hub then (w.unref r).forget g.hub r else w.unref r)
  /-- The last reference goes and a new one comes. -/
  | restore {hand w} {r : Ref} {o : Object} {v : Value} (hd : L.drops r)
      (ho : w.object? r = some o) (h : o.count ≤ 1)
      (hv : o.value.Revives v) :
      Motion L (.object r :: hand) w (.object r :: hand) (w.modifyObject r fun _ => ⟨1, v⟩)
  /-- A greenlet that nothing refers to gives up what it owns. -/
  | clear {hand w} (r : Ref) :
      Motion L (.grave r :: hand) w (.grave r :: ((w.greenlet r).tokens ++ hand))
        (w.modifyGreenlet r fun g =>
          { g with parent := none, run := none, fiber := none, inbox := none })
  /-- What owns nothing any more is ready to go. -/
  | empty {hand w} (r : Ref) (h : (w.greenlet r).tokens = []) :
      Motion L (.grave r :: hand) w (.grave r :: .urn r :: hand) w
  | erase {hand w} (r : Ref) : Motion L (.grave r :: .urn r :: hand) w hand (w.erase r)
  | greenlet {hand hand' w} {r : Ref} {f : Greenlet → Greenlet} (hg : L.greenlets r)
      (hs : ∀ g : Greenlet, g.Stays (f g))
      (hf : ∀ g, (f g).fiber = none ∨ (f g).fiber = g.fiber ∨ .object r ∈ hand)
      (hk : .object r ∈ hand ∨ ∀ g : Greenlet, g.tokens = [] → (f g).tokens = [])
      (hc : ∀ g, w.greenlet? r = some g →
        L.Pays (fun k => (f g).tokens.count k + hand'.count k)
          fun k => g.tokens.count k + hand.count k)
      (h₀ : w.greenlet? r = none → L.Pays hand'.count hand.count) :
      Motion L hand w hand' (w.modifyGreenlet r f)
  | hub {hand hand' w} {h : HubId} {f : Hub → Hub} (hh : L.hubs h) (hs : ∀ s : Hub, s.Stays (f s))
      (hc : L.Pays (fun k => (f (w.hub h)).tokens.count k + hand'.count k)
        fun k => (w.hub h).tokens.count k + hand.count k)
      (h₀ : ¬ h < w.hubs.size → L.Pays hand'.count hand.count) :
      Motion L hand w hand' (w.modifyHub h f)
  /-- A greenlet of another thread joins the queue of its hub. -/
  | send {hand w} {r : Ref} {h : HubId} (hh : h < w.hubs.size) :
      Motion L (.object r :: hand) w hand
        (w.modifyHub h fun s => { s with foreign := s.foreign ++ [r] })
  /-- Another greenlet of the thread becomes the current one. -/
  | current {hand w} {h : HubId} {r : Ref} (hh : L.hubs h) (he : w.Enters h)
      (ht : (w.greenlet r).thread = (w.hub h).thread ∨ r = (w.hub h).main) :
      Motion L (.object r :: hand) w (.object (w.hub h).current :: hand)
        (w.modifyHub h fun s => { s with current := r })
  /-- Names of hubs are forgotten. -/
  | names {hand hand' w} (a : Table HubId) (hs : a.entries.Sublist w.named.entries)
      (hc : ∀ k, { w with named := a }.tableTokens.count k + hand'.count k =
        w.tableTokens.count k + hand.count k) : Motion L hand w hand' { w with named := a }
  /-- The slot for the pending failure ends. -/
  | expire {hand w} : Motion L hand w (Obj.tokens w.thread.pending.get? ++ hand)
      (w.modifyThread fun t => { t with pending := .gone })
  /-- The slot of a thread that never had a hub ends. -/
  | vacate {hand w} (hv : w.thread.home.get? = none) :
      Motion L hand w hand (w.modifyThread fun t => { t with home := .gone })
  | hold {hand w} {h : HubId} (hh : L.hubs h) (hl : w.hubLives h = true) :
      Motion L hand w (.hub h :: hand) (w.holdHub h)
  | leave {hand w} {h : HubId} (hh : L.hubs h) :
      Motion L (.hub h :: hand) w (if (w.hub h).holders ≤ 1 then .tomb h :: hand else hand)
        (w.modifyHub h fun s => { s with holders := s.holders - 1 })
  | close {hand w} {h : HubId} (hh : L.hubs h) :
      Motion L hand w hand (w.modifyHub h fun s => { s with closed := true, nodes := [] })
  | dispose {hand w} {h : HubId} (hh : L.hubs h) :
      Motion L (.tomb h :: hand) w ({ w.hub h with disposed := false }.tokens ++ hand)
        (w.modifyHub h fun s => { s with
          outgoing := none, deferred := [], foreign := [], disposed := true })

namespace Motion

open World

variable {L : Licence} {w w' w₀ : World} {hand hand' hand₀ : List Token}

theorem refl : Motion L hand w hand w := .trade (.of_eq fun _ _ => rfl)

theorem quiet (h : Quiet w w') : Motion L hand w hand w' := .script (.quiet h)

theorem note (m : Motion L hand₀ w₀ hand w) (name : String) (result : List Datum) :
    Motion L hand₀ w₀ hand (w.note name result) :=
  m.trans (.quiet (.note name result))

theorem trading (m : Motion L hand₀ w₀ hand w) (hc : L.Pays hand'.count hand.count) :
    Motion L hand₀ w₀ hand' w :=
  m.trans (.trade hc)

theorem widen (m : Motion L hand w hand' w') : Motion .full hand w hand' w' := by
  induction m with
  | script e => exact .script e.widen
  | trade h => exact .trade h.widen
  | trans _ _ ih ih' => exact ih.trans ih'
  | lock l => exact .lock l
  | control hf _ hc _ =>
    exact .control hf (fun _ hq => absurd trivial hq) hc fun _ k _ => .inl (Licence.loses_full k)
  | retain r h => exact .retain r h
  | release _ ho h => exact .release trivial ho h
  | bury _ ho h hm => exact .bury trivial ho h hm
  | retire _ ho h hm hf => exact .retire trivial ho h hm hf
  | restore _ ho h hv => exact .restore trivial ho h hv
  | clear r => exact .clear r
  | empty r h => exact .empty r h
  | erase r => exact .erase r
  | greenlet _ hs hf hk hc h₀ =>
    exact .greenlet trivial hs hf hk (fun g hg => (hc g hg).widen) fun hn => (h₀ hn).widen
  | hub _ hs hc h₀ => exact .hub trivial hs hc.widen fun hn => (h₀ hn).widen
  | send hh => exact .send hh
  | current _ he ht => exact .current trivial he ht
  | names a hs hc => exact .names a hs hc
  | expire => exact .expire
  | vacate hv => exact .vacate hv
  | hold _ hl => exact .hold trivial hl
  | leave => exact .leave trivial
  | close => exact .close trivial
  | dispose => exact .dispose trivial

theorem seated (m : Motion L hand w hand' w') (hw : w.Seated) : w'.Seated := by
  induction m with
  | script e => exact e.seated hw
  | trade | empty => exact hw
  | trans _ _ ih ih' => exact ih' (ih hw)
  | control | expire | vacate => exact (seated_modifyThread _).mpr hw
  | retire =>
    split <;> exact hw
  | _ => exact hw

theorem setStack_eq_setControl (w : World) (s : List (Item Task)) :
    w.setStack s = w.setControl { w.control with stack := s } := rfl

theorem restack {s : List (Item Task)} (hf : Item.Framed w.thread.stack → Item.Framed s)
    (hc : L.Pays (fun k => (Item.tokensOf s).count k + hand'.count k)
      fun k => (Item.tokensOf w.thread.stack).count k + hand.count k) :
    Motion L hand w hand' (w.setStack s) := by
  rw [setStack_eq_setControl]
  refine .control (fun h => ⟨hf h.stack, h.saved⟩) (fun _ _ _ => rfl) (fun _ k hk => ?_) fun _ k hk => ?_
  · have := hc.le hk
    simp only [Control.claims, World.control] at this ⊢
    omega
  · by_cases hl : L.Loses k
    · exact .inl hl
    · have := hc.eq hk hl
      simp only [Control.owed, Control.claims, World.control] at this ⊢
      exact .inr (by omega)

theorem push (hw : w.Seated) {ts : List Task}
    (hf : Item.Framed w.thread.stack → Item.Framed (ts.map .task ++ w.thread.stack))
    (hc : L.Pays (fun k => (Task.tokensOf ts).count k + hand'.count k) hand.count) :
    Motion L hand w hand' (w.push ts) := by
  rw [push_eq_setStack hw]
  refine restack hf (hc.congr fun k _ => ?_)
  simp only [Item.tokensOf_append, Item.tokensOf_map_task, List.count_append]
  omega

theorem pushAlone (hw : w.Seated) {l : List Task} (ht : l.all Task.isAlone = true)
    (hc : L.Pays (fun k => (Task.tokensOf l).count k + hand'.count k) hand.count) :
    Motion L hand w hand' (w.push l) :=
  push hw (fun h => h.push ht) hc

theorem pushing (m : Motion L hand₀ w₀ hand w) (hw : w₀.Seated) {l : List Task}
    (ht : l.all Task.isAlone = true)
    (hc : L.Pays (fun k => (Task.tokensOf l).count k + hand'.count k) hand.count) :
    Motion L hand₀ w₀ hand' (w.push l) :=
  m.trans (pushAlone (m.seated hw) ht hc)

theorem pushingOn (m : Motion L hand₀ w₀ hand w) (hw : w₀.Seated) {l : List Task} {t : Task}
    (ht : l.all Task.isAlone = true) (hs : t.Sits w.thread.stack)
    (hc : L.Pays (fun k => (Task.tokensOf (l ++ [t])).count k + hand'.count k) hand.count) :
    Motion L hand₀ w₀ hand' (w.push (l ++ [t])) := by
  refine m.trans (push (m.seated hw) (fun hf => ?_) hc)
  rw [List.map_append, List.append_assoc]
  have hl : Item.Framed (.task t :: w.thread.stack) := ⟨hs, hf⟩
  exact hl.push ht

theorem pop {t : Task} {below : List (Item Task)} (ht : w.thread.stack = .task t :: below) :
    Motion L hand w (t.tokens ++ hand) (w.setStack below) := by
  refine restack (fun hs => ?_) (.of_eq fun k _ => ?_)
  · rw [ht] at hs
    exact hs.2
  · simp only [ht, Item.tokensOf_cons, Item.tokens, List.count_append]
    omega

theorem popBase {f : FiberId} {forced : Bool} {below : List (Item Task)}
    (ht : w.thread.stack = .base f forced :: below) : Motion L hand w hand (w.setStack below) := by
  refine restack (fun hs => ?_) (.of_eq fun k _ => ?_)
  · rw [ht] at hs
    exact hs
  · simp only [ht, Item.tokensOf_cons, Item.tokens, List.nil_append]

theorem fibers {c : Control Task} (hf : w.control.Framed → c.Framed) (hs : L.Spares w.control c)
    (hc : w.control.Framed → ∀ k, c.claims k ≤ w.control.claims k)
    (hx : w.control.Framed → (∀ k, L.Loses k) ∨ ∀ k, c.owed k = w.control.owed k) :
    Motion L hand w hand (w.setControl c) :=
  .control hf hs (fun h k _ => Nat.add_le_add_right (hc h k) _)
    fun h k _ => (hx h).imp (· k) fun he => by rw [he]

theorem spares_modify {f : FiberId} (hf : L.fibers f) (c : Control Task)
    (g : Fiber Task → Fiber Task) : L.Spares c (c.modify f g) := fun q hq _ => by
  have hne : f ≠ q := fun he => hq (he ▸ hf)
  simp [Control.modify, Array.getElem?_modify, hne]

theorem modifyFiber (hw : w.Seated) {f : FiberId} (hf : L.fibers f) {g : Fiber Task → Fiber Task}
    (hg : ∀ s, (g s).phase = s.phase) : Motion L hand w hand (w.modifyFiber f g) := by
  have he : w.modifyFiber f g = w.setControl (w.control.modify f g) :=
    (setControl_control hw (fun c => c.modify f g) rfl).symm
  rw [he]
  refine fibers (fun h => h.modify fun s hs => ?_) (spares_modify hf _ g)
    (fun _ k => Control.claims_handles hg k) fun _ => .inr fun k =>
      Control.owed_modify (fun s => congrArg Fiber.Phase.tokens (hg s)) k
  rwa [hg]

/-- A greenlet that is there changes. It pays for what it gives up, and what it takes is paid
for. -/
theorem modifyGreenlet {r : Ref} {f : Greenlet → Greenlet} (hr : L.greenlets r)
    (hs : ∀ g : Greenlet, g.Stays (f g))
    (hf : ∀ g, (f g).fiber = none ∨ (f g).fiber = g.fiber ∨ .object r ∈ hand)
    (hk : .object r ∈ hand ∨ ∀ g : Greenlet, g.tokens = [] → (f g).tokens = [])
    (h₀ : (f .absent).tokens = [] ∨ ∃ g, w.greenlet? r = some g)
    (hc : L.Pays (fun k => (f (w.greenlet r)).tokens.count k + hand'.count k)
      fun k => (w.greenlet r).tokens.count k + hand.count k) :
    Motion L hand w hand' (w.modifyGreenlet r f) := by
  refine .greenlet hr hs hf hk (fun g hg => ?_) fun hn => ?_
  · rwa [greenlet_of_some hg] at hc
  · have h₀ : (f .absent).tokens = [] := h₀.resolve_right fun ⟨g, hg⟩ => by simp [hg] at hn
    have ht : Greenlet.absent.tokens = [] := rfl
    rw [greenlet_of_none hn, h₀, ht] at hc
    simpa only [List.count_nil, Nat.zero_add] using hc

theorem greenletQuiet {r : Ref} {f : Greenlet → Greenlet} (hr : L.greenlets r)
    (hs : ∀ g : Greenlet, g.Stays (f g))
    (hf : ∀ g, (f g).fiber = none ∨ (f g).fiber = g.fiber)
    (ht : ∀ g : Greenlet, (f g).parent = g.parent ∧ (f g).run = g.run ∧ (f g).inbox = g.inbox) :
    Motion L hand w hand (w.modifyGreenlet r f) := by
  have hcount (g : Greenlet) (k : Token) (hk : k.isTraded = true) :
      (f g).tokens.count k = g.tokens.count k := by
    obtain ⟨h₁, h₂, h₃⟩ := ht g
    have hp (p : Option (Pinned FiberId)) : ((p.map Pinned.tokens).getD []).count k = 0 := by
      cases p with
      | none => rfl
      | some p =>
        cases k with
        | fiber => cases hk
        | _ => simp [Pinned.tokens]
    simp only [Greenlet.tokens, h₁, h₂, h₃, List.count_append, hp]
  refine .greenlet hr hs (fun g => (hf g).imp id .inl) (.inr fun g hg => ?_)
    (fun g _ => .of_eq fun k hk => by rw [hcount g k hk]) fun _ => .of_eq fun _ _ => rfl
  obtain ⟨h₁, h₂, h₃⟩ := ht g
  simp only [Greenlet.tokens, h₁, h₂, h₃, List.append_eq_nil_iff] at hg ⊢
  refine ⟨⟨hg.1.1, ?_⟩, hg.2⟩
  rcases hf g with hn | hn
  · rw [hn]; rfl
  · rw [hn]; exact hg.1.2

theorem setState {r : Ref} (hr : L.greenlets r) (s : RunState) :
    Motion L hand w hand (w.setState r s) :=
  greenletQuiet hr (fun _ => ⟨rfl, rfl, rfl, rfl⟩) (fun _ => .inr rfl) fun _ => ⟨rfl, rfl, rfl⟩

theorem modifyHub {h : HubId} {f : Hub → Hub} (hh : L.hubs h) (hs : ∀ s : Hub, s.Stays (f s))
    (h₀ : h < w.hubs.size ∨ ∀ s : Hub, s.tokens = [] → (f s).tokens = [])
    (hc : L.Pays (fun k => (f (w.hub h)).tokens.count k + hand'.count k)
      fun k => (w.hub h).tokens.count k + hand.count k) :
    Motion L hand w hand' (w.modifyHub h f) := by
  refine .hub hh hs hc fun hn => ?_
  have hd : (w.hub h).tokens = [] := by
    rw [World.hub, Array.getElem?_eq_none (Nat.le_of_not_lt hn)]
    rfl
  rw [hd, h₀.resolve_left hn _ hd] at hc
  simpa only [List.count_nil, Nat.zero_add] using hc

theorem hubQuiet {h : HubId} {f : Hub → Hub} (hh : L.hubs h) (hs : ∀ s : Hub, s.Stays (f s))
    (ht : ∀ s, (f s).tokens = s.tokens) : Motion L hand w hand (w.modifyHub h f) :=
  .hub hh hs (.of_eq fun k _ => by rw [ht]) fun _ => .of_eq fun _ _ => rfl

theorem modifyStats {h : HubId} (hh : L.hubs h) (f : Stats → Stats) :
    Motion L hand w hand (w.modifyStats h f) :=
  hubQuiet hh (fun _ => ⟨rfl, rfl, rfl, rfl, rfl, rfl, rfl⟩) fun _ => rfl

theorem write (level : LogLevel) (message : String) :
    Motion L hand w hand (w.write level message) :=
  .quiet (.write level message)

end Motion

end Switchyard
