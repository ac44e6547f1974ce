import Switchyard.Proofs.Ownership.Token
import Switchyard.Proofs.View

/-!
# Effects of scripts

A step of a script is a sequence of a few kinds of updates. Between two updates references may be
in nobody's slot: the tokens in hand. What every update keeps, every step of a script keeps.
-/

namespace Switchyard

/-- Work that any place on a control stack may hold: it works on no hub or fiber, holds no lock
and ends no thread. -/
def Task.isPlain : Task → Bool
  | drop _ | dropCanary _ | deliver _ | refuse _ | answer _ | bodyEnd _ | result _ | steps _
  | mainSteps _ | mainGuard | loop .. | frame _ | leave _ | hand .. | nestEnd _ | dropEnd _
  | rootEnd | note .. | build .. | switched .. | sortFrom _ | join _ | endHandles | endHandle _
  | endObjects | endOuts | endStats | endHubs | rally _ => true
  | _ => false

/-- The task waits for the outcome of a switch, and keeps the target until then. -/
def Task.lends : Task → Bool
  | switched .. | rally _ => true
  | _ => false

/-- The task is about the one below it. -/
def Task.isSignal : Task → Bool
  | answer _ | leave _ | hand .. | result _ | fail _ => true
  | _ => false

theorem Task.isPlain_of_lends {t : Task} (h : t.lends = true) : t.isPlain = true := by
  cases t <;> first | rfl | cases h

namespace Task

theorem all_isPlain_dropArgs (a : Args Obj) : (dropArgs a).all isPlain = true := by
  simp only [dropArgs, List.all_eq_true, List.mem_filterMap, Option.map_eq_some_iff]
  rintro t ⟨o, _, r, _, rfl⟩
  rfl

theorem all_isPlain_dropPayload (p : Payload) : (dropPayload p).all isPlain = true := by
  cases p with
  | ok a => exact all_isPlain_dropArgs a
  | error f => rfl

theorem all_isPlain_dropRun (run : RunFn) : (dropRun run).all isPlain = true := by
  simp [dropRun, isPlain]

theorem all_isPlain_toList_drop (o : Option Ref) : (o.map drop).toList.all isPlain = true := by
  cases o <;> rfl

end Task

namespace World

/-- The script of the active thread can name the hub. -/
def Reaches (w : World) (h : HubId) : Prop :=
  w.thread.home = .full h ∨ ∃ name, w.named.find? name = some h

/-- Somebody who keeps a reference to `r` lets the script of the active thread see it. -/
inductive Offers (w : World) (hand : List Token) (r : Ref) : Prop where
  | hand (h : .object r ∈ hand) (hs : .sole r ∉ hand)
  | table (h : .object r ∈ w.tableTokens)
  | frame (h : .object r ∈ w.frame.tokens)
  | main {h : HubId} (hh : w.Reaches h) (hr : (w.hub h).main = r)
  | current {h : HubId} (hh : w.Reaches h) (hr : (w.hub h).current = r)
  | parent {h : HubId} (hh : w.Reaches h) (hr : w.parent (w.hub h).current = some r)

/-- There is a frame on the stack of the active thread. -/
def HasFrame (w : World) : Prop := (frameOf w.thread.stack).isSome = true

end World

/-- What updates may do besides. -/
structure Licence where
  /-- References may be lost. -/
  leaks : Prop
  /-- The objects whose storage may be left behind. -/
  sheds : Ref → Prop
  /-- The pending failure may be taken. -/
  clears : Prop
  /-- The greenlets that may get another parent. -/
  links : Ref → Prop
  /-- The objects whose references may be dropped. -/
  drops : Ref → Prop
  /-- The hubs that may be worked on. -/
  hubs : HubId → Prop
  /-- The greenlets that may be worked on. -/
  greenlets : Ref → Prop
  /-- The fibers that may be worked on. -/
  fibers : FiberId → Prop

namespace Licence

/-- All is allowed. -/
def full : Licence where
  leaks := True
  sheds _ := True
  clears := True
  links _ := True
  drops _ := True
  hubs _ := True
  greenlets _ := True
  fibers _ := True

/-- Claims to the token may be lost. -/
def Loses (L : Licence) : Token → Prop
  | .grave r => L.sheds r
  | _ => L.leaks

theorem loses_full (k : Token) : full.Loses k := by cases k <;> trivial

/-- What is written into the innermost frame is kept there: there is one, or it may be lost. -/
def Frames (L : Licence) (w : World) : Prop := L.leaks ∨ w.HasFrame

end Licence

open World in
/-- One update, or several, with the tokens in hand before and after. -/
inductive Effect (L : Licence) : List Token → World → List Token → World → Prop where
  | trade {hand hand' w} (h : ∀ k, hand'.count k = hand.count k) : Effect L hand w hand' w
  | quiet {hand w w'} (h : Quiet w w') : Effect L hand w hand w'
  | trans {hand hand' hand'' w w' w''} (h : Effect L hand w hand' w')
      (h' : Effect L hand' w' hand'' w'') : Effect L hand w hand'' w''
  | push {hand hand' w} (ts : List Task) (h : ts.all Task.isPlain = true)
      (hc : ∀ k, (Task.tokensOf ts).count k + hand'.count k = hand.count k) :
      Effect L hand w hand' (w.push ts)
  | frame {hand hand' w} (g : Frame → Frame)
      (h : ∀ k, (g w.frame).tokens.count k + hand'.count k =
        w.frame.tokens.count k + hand.count k) (hf : L.Frames w) :
      Effect L hand w hand' (w.modifyFrame g)
  | alloc {hand w} (v : Value) (hv : v.greenlet? = none) :
      Effect L hand w (.object (w.alloc v).1 :: hand) (w.alloc v).2
  | retain {hand w} (r : Ref) (h : w.Offers hand r) :
      Effect L hand w (.object r :: hand) (w.retain r)
  | tables {hand hand' w} (a : Table Ref) (b c : Table Obj)
      (h : ∀ k, { w with handles := a, objects := b, outs := c }.tableTokens.count k +
        hand'.count k = w.tableTokens.count k + hand.count k) :
      Effect L hand w hand' { w with handles := a, objects := b, outs := c }
  | register {hand w} (f : Failure) (hv : w.thread.pending = .vacant) :
      Effect L hand w hand ((w.alloc (.failure f)).2.modifyThread fun t =>
        { t with pending := .full w.heap.size })
  | take {hand w} {r : Ref} (hf : w.thread.pending = .full r) (hl : L.clears) :
      Effect L hand w (.object r :: hand) (w.modifyThread fun t => { t with pending := .vacant })
  | holdHub {hand w} (h : HubId) (hh : w.Reaches h) :
      Effect L hand w (.hub h :: hand) (w.holdHub h)
  | makeHome {hand w} (hv : w.thread.home = .vacant) :
      Effect L hand w hand
        (w.createHub.2.modifyThread fun t => { t with home := .full w.createHub.1 })
  | create {hand w w'} {h : HubId} {run : RunFn} {p : Option Ref} {r : Ref} (hh : w.Reaches h)
      (hp : ∀ q, p = some q → w.Offers (run.tokens ++ hand) q)
      (hc : w.createGreenlet h run p = (.ok r, w')) :
      Effect L (run.tokens ++ hand) w (.object r :: hand) w'
  | setParent {hand w w'} {r p : Ref} {old : Option Ref} (hr : w.Offers hand r)
      (hp : w.Offers hand p) (hs : w.setParent r p = (.ok old, w')) (hl : L.links r) :
      Effect L hand w ((old.map Token.object).toList ++ hand) w'
  | call {hand hand' w} {h : HubId} {t : Ref} (p : Payload) {u : Task} (hh : w.Reaches h)
      (ht : .object t ∈ u.tokens) (hu : u.lends = true)
      (hc : ∀ k, (Task.tokensOf [.switch h t p, .leaveHub h, u]).count k + hand'.count k =
        hand.count k) :
      Effect L hand w hand' (w.push [.switch h t p, .leaveHub h, u])
  | collect {hand w} {h : HubId} (name : String) (d : Datum) (hh : w.Reaches h) :
      Effect L (.hub h :: hand) w hand (w.push [.drain h, .leaveHub h, .note name [d]])
  | spawn {hand w} (steps : List Script.Step) : Effect L hand w hand (w.spawnStep steps)
  | fail {hand w} (p : Panic) : Effect L hand w hand (w.fail p)

namespace World

theorem frameOf_cons {x : Item Task} (hx : ∀ f, x ≠ .task (.frame f)) (s : List (Item Task)) :
    frameOf (x :: s) = frameOf s := by
  rw [frameOf]
  exact hx

theorem isSome_frameOf_append (top : List (Item Task)) {s : List (Item Task)}
    (h : (frameOf s).isSome = true) : (frameOf (top ++ s)).isSome = true := by
  induction top with
  | nil => exact h
  | cons x top ih =>
    by_cases hx : ∃ f, x = .task (.frame f)
    · obtain ⟨f, rfl⟩ := hx
      rfl
    · rw [List.cons_append, frameOf_cons fun f he => hx ⟨f, he⟩]
      exact ih

theorem isSome_frameOf_modifyFrameOf (g : Frame → Frame) {s : List (Item Task)}
    (h : (frameOf s).isSome = true) : (frameOf (modifyFrameOf g s)).isSome = true := by
  induction s with
  | nil => cases h
  | cons x s ih =>
    by_cases hx : ∃ f, x = .task (.frame f)
    · obtain ⟨f, rfl⟩ := hx
      rfl
    · have hx' : ∀ f, x ≠ .task (.frame f) := fun f he => hx ⟨f, he⟩
      rw [frameOf_cons hx'] at h
      rw [modifyFrameOf, frameOf_cons hx']
      · exact ih h
      · exact hx'

end World

namespace Effect

open World

variable {L : Licence} {w w' w₀ : World} {hand hand' hand₀ : List Token}

theorem refl : Effect L hand w hand w := .quiet (.refl w)

theorem note (e : Effect L hand₀ w₀ hand w) (name : String) (result : List Datum) :
    Effect L hand₀ w₀ hand (w.note name result) :=
  e.trans (.quiet (.note name result))

theorem pushing (e : Effect L hand₀ w₀ hand w) {ts : List Task} (h : ts.all Task.isPlain = true)
    (hc : ∀ k, (Task.tokensOf ts).count k + hand'.count k = hand.count k) :
    Effect L hand₀ w₀ hand' (w.push ts) :=
  e.trans (.push ts h hc)

theorem after (e : Effect L hand₀ w₀ hand w) {ts : List Task} (h : ts.all Task.isPlain = true)
    (hc : ∀ k, (Task.tokensOf ts).count k + hand'.count k = hand.count k) (name : String)
    (d : Datum) : Effect L hand₀ w₀ hand' (w.after ts name d) :=
  e.pushing (by simpa [Task.isPlain] using h) fun k => by
    simpa [Task.tokens] using hc k

theorem widen (e : Effect L hand w hand' w') : Effect .full hand w hand' w' := by
  induction e with
  | trade h => exact .trade h
  | quiet h => exact .quiet h
  | trans _ _ ih ih' => exact ih.trans ih'
  | push ts h hc => exact .push ts h hc
  | frame g h _ => exact .frame g h (.inl trivial)
  | alloc v hv => exact .alloc v hv
  | retain r h => exact .retain r h
  | tables a b c h => exact .tables a b c h
  | register f hv => exact .register f hv
  | take hf _ => exact .take hf trivial
  | holdHub h hh => exact .holdHub h hh
  | makeHome hv => exact .makeHome hv
  | create hh hp hc => exact .create hh hp hc
  | setParent hr hp hs _ => exact .setParent hr hp hs trivial
  | call p hh ht hu hc => exact .call p hh ht hu hc
  | collect name d hh => exact .collect name d hh
  | spawn steps => exact .spawn steps
  | fail p => exact .fail p

theorem seated (e : Effect L hand w hand' w') (hw : w.Seated) : w'.Seated := by
  induction e with
  | trade => exact hw
  | quiet h => exact h.seated hw
  | trans _ _ ih ih' => exact ih' (ih hw)
  | push | call | collect => exact (seated_modifyThread _).mpr hw
  | frame | register | take | makeHome => exact (seated_modifyThread _).mpr hw
  | alloc | retain | tables | holdHub => exact hw
  | create _ _ hc =>
    obtain ⟨-, -, -, _, hq⟩ := createGreenlet_ok hc
    exact hq.seated hw
  | setParent _ _ hs =>
    obtain ⟨-, -, rfl⟩ := setParent_ok hs
    exact hw
  | spawn => constructor <;> simp [spawnStep, World.push, modifyThread]
  | fail => exact (seated_modifyThread _).mpr ((seated_modifyThread _).mpr hw)

theorem hasFrame (e : Effect L hand w hand' w') (hw : w.Seated) (h : w.HasFrame) : w'.HasFrame := by
  have thread {v : World} {u : Thread → Thread} (hv : v.Seated)
      (hu : ∀ t, (frameOf t.stack).isSome = true → (frameOf (u t).stack).isSome = true)
      (h : v.HasFrame) : (v.modifyThread u).HasFrame := by
    unfold World.HasFrame at *
    rw [thread_modifyThread hv]
    exact hu _ h
  have quiet {v v' : World} (hv : v.Seated) (hq : Quiet v v') (h : v.HasFrame) : v'.HasFrame := by
    unfold World.HasFrame at *
    rwa [(hq.thread hv).1]
  induction e with
  | trade => exact h
  | quiet hq => exact quiet hw hq h
  | trans e _ ih ih' => exact ih' (e.seated hw) (ih hw h)
  | push | call | collect => exact thread hw (fun _ => isSome_frameOf_append _) h
  | frame => exact thread hw (fun _ => isSome_frameOf_modifyFrameOf _) h
  | register | take => exact thread hw (fun _ h => h) h
  | alloc | retain | tables | holdHub => exact h
  | makeHome =>
    obtain ⟨-, id, hq⟩ := createHub_quiet ‹World›
    refine thread (seated_createHub.mpr hw) (fun _ h => h) (quiet ?_ hq ?_)
    · exact hw
    · exact h
  | create _ _ hc =>
    obtain ⟨-, -, -, id, hq⟩ := createGreenlet_ok hc
    refine quiet ?_ hq ?_
    · exact hw
    · exact h
  | setParent _ _ hs =>
    obtain ⟨-, -, rfl⟩ := setParent_ok hs
    exact h
  | @spawn _ v steps =>
    have ht : (v.spawnStep steps).thread.stack =
        [Task.steps steps, .frame {}, .rootEnd, .exitThread].map .task := by
      simp only [World.thread, World.spawnStep, World.push, World.modifyThread, Nat.add_sub_cancel,
        Array.getElem?_push, Array.size_modify, if_true]
      rfl
    unfold World.HasFrame
    rw [ht]
    rfl
  | fail p =>
    have h₁ := thread hw (u := fun t => { t with stack := [Task.fail p].map .task ++ t.stack })
      (fun _ => isSome_frameOf_append _) h
    exact thread (u := fun t => { t with panics := t.panics + 1 })
      ((seated_modifyThread _).mpr hw) (fun _ h => h) h₁

theorem frames (e : Effect L hand w hand' w') (hw : w.Seated) (h : L.Frames w) : L.Frames w' :=
  h.imp_right (e.hasFrame hw)

theorem trading (e : Effect L hand₀ w₀ hand w) (hc : ∀ k, hand'.count k = hand.count k) :
    Effect L hand₀ w₀ hand' w :=
  e.trans (.trade hc)

end Effect

end Switchyard
