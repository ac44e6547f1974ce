import Switchyard.Proofs.Stack

/-!
# Where signals lead

A signal goes down a control stack until it meets the task it is meant for. The context of a place
is the kind of task that is found first below it; a task that gives rise to a signal stands only
where that signal is met.
-/

namespace Switchyard

inductive Context where
  /-- No signal arises here. -/
  | floor
  /-- The bottom of a fiber. -/
  | base
  /-- Here the result of a run function is met. -/
  | entry
  /-- The next three meet an ended frame. -/
  | body
  | root
  | nest
  /-- Here the early end of a frame is met. -/
  | frame
  /-- Here the outcome of a switch is met. -/
  | await
  deriving DecidableEq

namespace Context

def isEnd : Context → Bool
  | body | root | nest => true
  | _ => false

def guard (b : Bool) (c : Context) : Option Context := if b then some c else none

def task (t : Task) (c : Context) : Option Context :=
  match t with
  | .frame _ => guard c.isEnd frame
  | .hand .. => guard c.isEnd c
  | .nestEnd _ => guard (c = frame) nest
  | .bodyEnd _ => guard (c = entry) body
  | .rootEnd => some root
  | .reclaim _ | .released .. | .drain _ | .teardownQueues .. | .teardownCurrent ..
  | .teardownEnd .. => some floor
  | .entry .. => guard (c = base) entry
  | .runBody .. | .result _ | .rally (.hit ..) | .rally (.serve ..) => guard (c = entry) entry
  | .rally (.hitBack ..) | .rally (.served ..) => guard (c = entry) await
  | .rally (.relayed ..) | .rally (.stopped ..) => some await
  | .steps _ | .mainSteps _ | .loop .. | .leave _ | .build .. => guard (c = frame) frame
  | .switched .. => guard (c = frame) await
  | .deliver _ | .refuse _ | .answer _ => guard (c = await) await
  | .switch .. | .suspend .. | .resumed _ | .drive .. | .driveTarget .. | .driveKilled ..
  | .driveRefused .. | .driveRegister .. | .driveResume .. | .driveBack .. | .driveFinished ..
  | .driveSuspended .. | .driveMain .. => guard (c = await) floor
  | _ => some c

def item (i : Item Task) (c : Context) : Option Context :=
  match i with
  | .task t => task t c
  | .base .. => some base

/-- The context above the items `s` that stand in context `c`. -/
def upon (c : Context) (s : List (Item Task)) : Option Context :=
  s.foldr (fun i c => c.bind (item i)) (some c)

def of (s : List (Item Task)) : Option Context := floor.upon s

end Context

/-- The task may stand anywhere, and signals pass it. -/
def Task.isNeutral : Task → Bool
  | frame _ | hand .. | nestEnd _ | bodyEnd _ | rootEnd | entry .. | runBody .. | result _
  | steps _ | mainSteps _ | loop .. | leave _ | build .. | switched .. | deliver _ | refuse _
  | answer _ | switch .. | suspend .. | resumed _ | reclaim _ | released .. | drain _
  | teardownQueues .. | teardownCurrent .. | teardownEnd .. | drive .. | driveTarget ..
  | driveKilled .. | driveRefused .. | driveRegister .. | driveResume .. | driveBack ..
  | driveFinished .. | driveSuspended .. | driveMain .. => false
  | rally r => match r with
    | .start _ => true
    | _ => false
  | _ => true

namespace Context

variable {c c' : Context} {t : Task} {ts us : List Task} {s s' : List (Item Task)}

theorem guard_eq_some_iff {b : Bool} : guard b c = some c' ↔ b = true ∧ c = c' := by
  cases b <;> simp [guard]

theorem task_of_isNeutral (h : t.isNeutral = true) : task t c = some c := by
  cases t with
  | rally r => cases r <;> first | rfl | cases h
  | _ => first | rfl | cases h

@[simp] theorem upon_nil : c.upon [] = some c := rfl

@[simp] theorem upon_cons (i : Item Task) : c.upon (i :: s) = (c.upon s).bind (item i) := rfl

theorem upon_append : c.upon (s ++ s') = (c.upon s').bind fun c' => c'.upon s := by
  induction s with
  | nil => simp
  | cons i s ih =>
    simp only [List.cons_append, upon_cons, ih]
    cases c.upon s' <;> rfl

theorem of_append : of (s ++ s') = (of s').bind fun c => c.upon s := upon_append

theorem upon_neutral (h : ts.all Task.isNeutral = true) : c.upon (ts.map .task) = some c := by
  induction ts with
  | nil => rfl
  | cons t ts ih =>
    simp only [List.all_cons, Bool.and_eq_true] at h
    rw [List.map_cons, upon_cons, ih h.2]
    exact task_of_isNeutral h.1

theorem upon_neutral_append (h : ts.all Task.isNeutral = true) :
    c.upon ((ts ++ us).map .task) = c.upon (us.map .task) := by
  rw [List.map_append, upon_append]
  cases c.upon (us.map .task) with
  | none => rfl
  | some c' => exact upon_neutral h

theorem of_cons {i : Item Task} (h : of (i :: s) = some c) :
    ∃ c', of s = some c' ∧ item i c' = some c := by
  simpa [of, Option.bind_eq_some_iff] using h

theorem upon_modifyFrameOf (g : Frame → Frame) (s : List (Item Task)) :
    c.upon (World.modifyFrameOf g s) = c.upon s := by
  induction s with
  | nil => rfl
  | cons i s ih =>
    unfold World.modifyFrameOf
    split
    · rename_i h
      cases h
    · rename_i f rest h
      obtain ⟨rfl, rfl⟩ := List.cons.inj h
      rfl
    · rename_i j rest _ h
      obtain ⟨rfl, rfl⟩ := List.cons.inj h
      simp only [upon_cons, ih]

end Context

namespace Task

theorem all_isNeutral_dropArgs (a : Args Obj) : (dropArgs a).all isNeutral = true := by
  simp only [dropArgs, List.all_eq_true, List.mem_filterMap, Option.map_eq_some_iff]
  rintro t ⟨o, _, r, _, rfl⟩
  rfl

theorem all_isNeutral_dropPayload (p : Payload) : (dropPayload p).all isNeutral = true := by
  cases p with
  | ok a => exact all_isNeutral_dropArgs a
  | error f => rfl

theorem all_isNeutral_dropRun (run : RunFn) : (dropRun run).all isNeutral = true := by
  simp [dropRun, isNeutral]

theorem all_isNeutral_dropOutgoing (o : Option Outgoing) :
    (dropOutgoing o).all isNeutral = true := by
  rcases o with _ | (⟨target, p⟩ | p)
  · rfl
  · simp [dropOutgoing, isNeutral, all_isNeutral_dropPayload]
  · exact all_isNeutral_dropPayload p

theorem all_isNeutral_dropFlow (f : Flow) : (dropFlow f).all isNeutral = true := by
  cases f with
  | ret a => exact all_isNeutral_dropArgs a
  | _ => rfl

theorem all_isNeutral_dropLocals (ls : List Local) :
    (ls.filterMap dropLocal).all isNeutral = true := by
  simp only [List.all_eq_true, List.mem_filterMap]
  rintro t ⟨l, -, hl⟩
  cases l with
  | object o => cases o <;> cases hl; rfl
  | _ => cases hl; rfl

theorem all_isNeutral_drops (r : Rally) : r.drops.all isNeutral = true := by
  cases r <;> simp [Rally.drops, isNeutral, all_isNeutral_dropArgs]

theorem all_isNeutral_map_drop (rs : List Ref) : (rs.map drop).all isNeutral = true := by
  simp [isNeutral]

theorem all_isNeutral_toList_drop (o : Option Ref) :
    (o.map drop).toList.all isNeutral = true := by
  cases o <;> rfl

theorem all_isNeutral_cleanup (t : Task) : t.cleanup.all isNeutral = true := by
  cases t with
  | answer outcome => cases outcome <;> simp [cleanup, all_isNeutral_dropArgs]
  | build acc positional keywords purpose =>
    cases purpose <;> simp [cleanup, isNeutral, all_isNeutral_dropArgs]
  | rally r => exact all_isNeutral_drops r
  | frame f =>
    rw [cleanup, List.all_append, all_isNeutral_dropLocals, all_isNeutral_dropArgs]
    rfl
  | _ =>
    simp [cleanup, isNeutral, all_isNeutral_dropArgs, all_isNeutral_dropPayload,
      all_isNeutral_dropRun, all_isNeutral_dropOutgoing, all_isNeutral_dropFlow]

end Task

end Switchyard
