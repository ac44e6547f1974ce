import Mathlib.Data.List.Induction
import Switchyard.Log.Session
import Switchyard.Proofs.Log.Spelling

/-!
# The settings of a log

Two settings share one moment at which they are in place. It comes with the first call that reads
the environment, or with the choice of a level, which keeps the environment from being read. From
then on each setting is what was chosen last. What was chosen for the flush before the environment
is read is lost.
-/

namespace Switchyard.Log.Session

variable {env : Environment} {s s' : Session} {c : Call} {cs : List Call}

def after (env : Environment) (cs : List Call) : Session := (runAll { env } cs).2

namespace Command

/-- The command asks for the settings, and has them read if they are not in place. -/
def reads : Command → Bool
  | init | level | flush | enabled _ | emit .. | onThread _ => true
  | _ => false

def level? : Command → Option LogLevel
  | setLevel l => some l
  | _ => none

def flush? : Command → Option Bool
  | setFlush b => some b
  | _ => none

def line? : Command → Option (LogLevel × String)
  | emit l message => some (l, message)
  | onThread message => some (.error, message)
  | _ => none

def change : Command → Environment → Environment
  | setVariable name v, env => env.set name v
  | _, env => env

end Command

def chosenLevel (cs : List Call) : Option LogLevel :=
  (cs.filterMap fun c => c.command.level?).getLast?

def chosenFlush (cs : List Call) : Option Bool :=
  (cs.filterMap fun c => c.command.flush?).getLast?

def envAfter (env : Environment) (cs : List Call) : Environment :=
  cs.foldl (fun env c => c.command.change env) env

/-- The environment as the first call finds it that asks for the settings. -/
def envRead : Environment → List Call → Option Environment
  | _, [] => none
  | env, c :: cs => if c.command.reads then some env else envRead (c.command.change env) cs

/-- The level that the calls make. Once the environment was read or a level chosen, it does not
matter what becomes of the variables. -/
def levelAt (env : Environment) (cs : List Call) : LogLevel :=
  (chosenLevel cs).getD
    (((envRead env cs).bind fun e => (e.get levelVariable).read? LogLevel.parse?).getD .warn)

/-- The lines of `cs` that are at most at the level of their time, when `before` came first. -/
def written (env : Environment) (before : List Call) : List Call → List (LogLevel × String)
  | [] => []
  | c :: cs =>
    (c.command.line?.toList.filter fun l => l.1.number ≤ (levelAt env (before ++ [c])).number) ++
      written env (before ++ [c]) cs

/-- The settings are in place after the call. -/
def Command.settles (c : Command) : Bool := c.reads || c.level?.isSome

/-- The flush that the calls make. What was chosen before the environment is read is lost. -/
def flushAt (env : Environment) (cs : List Call) : Bool :=
  let early := cs.takeWhile fun c => !c.command.settles
  match cs.dropWhile fun c => !c.command.settles with
  | [] => (chosenFlush early).getD false
  | c :: later => (chosenFlush later).getD <|
      if c.command.reads then ((envAfter env early).get flushVariable).flag false
      else (chosenFlush early).getD false

theorem getLast?_filterMap_concat {α β : Type} (f : α → Option β) (xs : List α) (x : α) :
    ((xs ++ [x]).filterMap f).getLast? = (f x).or (xs.filterMap f).getLast? := by
  cases h : f x <;> simp [h]

theorem chosenLevel_concat (cs : List Call) (c : Call) :
    chosenLevel (cs ++ [c]) = c.command.level?.or (chosenLevel cs) :=
  getLast?_filterMap_concat _ _ _

theorem chosenFlush_concat (cs : List Call) (c : Call) :
    chosenFlush (cs ++ [c]) = c.command.flush?.or (chosenFlush cs) :=
  getLast?_filterMap_concat _ _ _

theorem envAfter_concat (env : Environment) (cs : List Call) (c : Call) :
    envAfter env (cs ++ [c]) = c.command.change (envAfter env cs) := by
  rw [envAfter, List.foldl_append, envAfter]
  rfl

theorem envRead_concat (env : Environment) (cs : List Call) (c : Call) :
    envRead env (cs ++ [c]) =
      (envRead env cs).or (if c.command.reads then some (envAfter env cs) else none) := by
  induction cs generalizing env with
  | nil => simp [envRead, envAfter]
  | cons d cs ih =>
    rw [List.cons_append, envRead, envRead, ih]
    split
    · rfl
    · rfl

theorem written_concat (env : Environment) (before cs : List Call) (c : Call) :
    written env before (cs ++ [c]) = written env before cs ++
      c.command.line?.toList.filter fun l =>
        l.1.number ≤ (levelAt env (before ++ (cs ++ [c]))).number := by
  induction cs generalizing before with
  | nil => simp [written]
  | cons d cs ih =>
    rw [List.cons_append, written, written, ih, List.append_assoc, List.append_assoc]
    rfl

theorem runAll_cons (s : Session) (c : Call) (cs : List Call) :
    runAll s (c :: cs) =
      ((s.step c).1 :: (runAll (s.step c).2 cs).1, (runAll (s.step c).2 cs).2) :=
  rfl

theorem runAll_concat (s : Session) (cs : List Call) (c : Call) :
    runAll s (cs ++ [c]) = ((runAll s cs).1 ++ [((runAll s cs).2.step c).1],
      ((runAll s cs).2.step c).2) := by
  induction cs generalizing s with
  | nil => rfl
  | cons d cs ih =>
    rw [List.cons_append, runAll_cons, ih, runAll_cons]
    rfl

theorem after_concat (env : Environment) (cs : List Call) (c : Call) :
    after env (cs ++ [c]) = ((after env cs).step c).2 := by
  rw [after, runAll_concat, after]

theorem answer_at (s : Session) (before rest : List Call) (c : Call) :
    (runAll s (before ++ c :: rest)).1[before.length]? =
      some ((runAll s before).2.step c).1 := by
  induction before generalizing s with
  | nil => rfl
  | cons d before ih =>
    rw [List.cons_append, runAll_cons, runAll_cons, List.length_cons, List.getElem?_cons_succ]
    exact ih _

@[simp] theorem settle_settled (log : Log) (env : Environment) :
    (log.settle env).settled = true := by
  unfold Log.settle
  split
  · assumption
  · rfl

theorem settle_of_settled {log : Log} (h : log.settled = true) (env : Environment) :
    log.settle env = log := by
  rw [Log.settle, if_pos h]

theorem settle_of_unsettled {log : Log} (h : log.settled = false) (env : Environment) :
    (log.settle env).level = (env.get levelVariable).readD LogLevel.parse? log.level ∧
      (log.settle env).flush = (env.get flushVariable).flag false := by
  rw [Log.settle, if_neg (by simp [h])]
  exact ⟨rfl, rfl⟩

theorem settle_lines (log : Log) (env : Environment) : (log.settle env).lines = log.lines := by
  unfold Log.settle
  split <;> rfl

@[simp] theorem write_settled (log : Log) (l : LogLine) :
    (log.write l).settled = log.settled ∧ (log.write l).level = log.level ∧
      (log.write l).flush = log.flush := by
  unfold Log.write
  split <;> exact ⟨rfl, rfl, rfl⟩

theorem write_settings (s : Session) (t : Option Nat) (l : LogLevel) (m : String) :
    (s.write t l m).env = s.env ∧
      (s.write t l m).log.settled = true ∧
      (s.write t l m).log.level = (s.log.settle s.env).level ∧
      (s.write t l m).log.flush = (s.log.settle s.env).flush := by
  unfold write
  dsimp only
  split <;> simp [Session.settle]

theorem env_step (s : Session) (c : Call) : (s.step c).2.env = c.command.change s.env := by
  obtain ⟨t, c⟩ := c
  cases c with
  | emit l m => exact (s.write_settings (some t) l m).1
  | onThread m => exact (s.write_settings none .error m).1
  | _ => rfl

theorem step_settings (s : Session) (c : Call) :
    (s.step c).2.log.settled = (s.log.settled || c.command.settles) ∧
    (s.step c).2.log.level = c.command.level?.getD
      (if c.command.reads then (s.log.settle s.env).level else s.log.level) ∧
    (s.step c).2.log.flush = c.command.flush?.getD
      (if c.command.reads then (s.log.settle s.env).flush else s.log.flush) := by
  obtain ⟨t, c⟩ := c
  cases c with
  | emit l m => simpa [step, Command.settles, Command.reads, Command.level?, Command.flush?] using
      (s.write_settings (some t) l m).2
  | onThread m => simpa [step, Command.settles, Command.reads, Command.level?, Command.flush?] using
      (s.write_settings none .error m).2
  | _ => simp [step, Command.settles, Command.reads, Command.level?, Command.flush?,
      Session.settle, Log.setLevel, Log.setFlush]

theorem step_lines (s : Session) (c : Call) :
    (s.step c).2.log.lines.reverse.map (fun l => (l.level, l.message)) =
      s.log.lines.reverse.map (fun l => (l.level, l.message)) ++
        c.command.line?.toList.filter fun l =>
          l.1.number ≤ (s.log.settle s.env).level.number := by
  have writes (t : Option Nat) (l : LogLevel) (m : String) :
      (s.write t l m).log.lines.reverse.map (fun l => (l.level, l.message)) =
        s.log.lines.reverse.map (fun l => (l.level, l.message)) ++
          [(l, m)].filter fun l => l.1.number ≤ (s.log.settle s.env).level.number := by
    unfold write
    dsimp only [Session.settle]
    by_cases hl : (s.log.settle s.env).enabled l = true
    · have hn : l.number ≤ (s.log.settle s.env).level.number := of_decide_eq_true hl
      rw [if_pos hl]
      simp [Log.write, hl, hn, settle_lines]
    · have hn : ¬ l.number ≤ (s.log.settle s.env).level.number := fun h => hl (decide_eq_true h)
      rw [if_neg hl]
      simp [hn, settle_lines]
  obtain ⟨t, c⟩ := c
  cases c with
  | emit l m => exact writes (some t) l m
  | onThread m => exact writes none .error m
  | _ => simp [step, Command.line?, Session.settle, settle_lines, Log.setLevel, Log.setFlush]

theorem after_env (env : Environment) (cs : List Call) : (after env cs).env = envAfter env cs := by
  induction cs using List.reverseRecOn with
  | nil => rfl
  | append_singleton cs c ih => rw [after_concat, env_step, ih, envAfter_concat]

theorem after_settled (env : Environment) (cs : List Call) :
    (after env cs).log.settled = ((chosenLevel cs).isSome || (envRead env cs).isSome) := by
  induction cs using List.reverseRecOn with
  | nil => rfl
  | append_singleton cs c ih =>
    rw [after_concat, (step_settings _ _).1, ih, chosenLevel_concat, envRead_concat,
      Command.settles]
    cases c.command.level? <;> cases c.command.reads <;> cases envRead env cs <;>
      cases chosenLevel cs <;> rfl

/-- Once the settings are in place, the level depends on choices only. -/
theorem after_level (env : Environment) (cs : List Call) :
    (after env cs).log.level = levelAt env cs := by
  induction cs using List.reverseRecOn with
  | nil => rfl
  | append_singleton cs c ih =>
    rw [after_concat, (step_settings _ _).2.1]
    unfold levelAt at ih ⊢
    rw [chosenLevel_concat, envRead_concat]
    cases hl : c.command.level? with
    | some l => rfl
    | none =>
      rw [Option.getD_none, Option.none_or]
      by_cases hr : c.command.reads = true
      · have hs := after_settled env cs
        rw [if_pos hr, if_pos hr]
        by_cases hset : (after env cs).log.settled = true
        · rw [settle_of_settled hset, ih]
          cases hc : chosenLevel cs with
          | some l => rfl
          | none =>
            cases he : envRead env cs with
            | some e => rfl
            | none => rw [hset, hc, he] at hs; cases hs
        · rw [Bool.not_eq_true] at hset
          rw [hset] at hs
          obtain ⟨hc, he⟩ : chosenLevel cs = none ∧ envRead env cs = none := by
            simpa using hs
          have hw : (after env cs).log.level = .warn := by rw [ih, hc, he]; rfl
          rw [hc, he, (settle_of_unsettled hset _).1, hw, after_env]
          rfl
      · rw [if_neg hr, if_neg hr, Option.or_none, ih]

theorem settle_level (env : Environment) (cs : List Call) {c : Call}
    (hr : c.command.reads = true) (hl : c.command.level? = none) :
    ((after env cs).log.settle (after env cs).env).level = levelAt env (cs ++ [c]) := by
  rw [← after_level, after_concat, (step_settings _ _).2.1, hl, hr]
  rfl

theorem after_lines (env : Environment) (cs : List Call) :
    (after env cs).log.lines.reverse.map (fun l => (l.level, l.message)) = written env [] cs := by
  induction cs using List.reverseRecOn with
  | nil => rfl
  | append_singleton cs c ih =>
    rw [after_concat, step_lines, ih, written_concat]
    congr 1
    cases hl : c.command.line? with
    | none => rfl
    | some l =>
      have hr : c.command.reads = true ∧ c.command.level? = none := by
        cases hc : c.command <;> simp_all [Command.line?, Command.reads, Command.level?]
      rw [settle_level env cs hr.1 hr.2]
      rfl

/-- The level that the calls tell: the one that was chosen last, else the one that the variable
spelled when the environment was read, else the standard one. -/
inductive Told (env : Environment) (cs : List Call) : LogLevel → Prop where
  | chosen {l : LogLevel} (h : chosenLevel cs = some l) : Told env cs l
  | spelled {e : Environment} {text : String} {l : LogLevel} (hc : chosenLevel cs = none)
      (he : envRead env cs = some e) (ht : e.get levelVariable = .text text)
      (h : LogLevel.Spelled text l) : Told env cs l
  | silent (hc : chosenLevel cs = none) (h : ∀ e text l, envRead env cs = some e →
      e.get levelVariable = .text text → ¬ LogLevel.Spelled text l) : Told env cs .warn

theorem told_levelAt (env : Environment) (cs : List Call) : Told env cs (levelAt env cs) := by
  unfold levelAt
  cases hc : chosenLevel cs with
  | some l => exact .chosen hc
  | none =>
    cases he : envRead env cs with
    | none =>
      exact .silent hc fun e _ _ h => absurd (he.symm.trans h) (by simp)
    | some e =>
      rw [Option.getD_none, Option.bind_some]
      cases hl : (e.get levelVariable).read? LogLevel.parse? with
      | some l =>
        cases ht : e.get levelVariable with
        | text text => exact .spelled hc he ht (LogLevel.read?_eq_some_iff.mp (ht ▸ hl))
        | unset => rw [ht] at hl; cases hl
        | garbled => rw [ht] at hl; cases hl
      | none =>
        refine .silent hc fun e' text l h ht hs => ?_
        obtain rfl : e = e' := Option.some.inj (he.symm.trans h)
        rw [ht, LogLevel.read?_eq_some_iff.mpr hs] at hl
        cases hl

theorem Told.levelAt_eq {l : LogLevel} (h : Told env cs l) : levelAt env cs = l := by
  unfold levelAt
  cases h with
  | chosen h => rw [h, Option.getD_some]
  | spelled hc he ht h =>
    rw [hc, he, Option.getD_none, Option.bind_some, ht, LogLevel.read?_eq_some_iff.mpr h,
      Option.getD_some]
  | silent hc h =>
    rw [hc, Option.getD_none]
    cases he : envRead env cs with
    | none => rfl
    | some e =>
      have hn : (e.get levelVariable).read? LogLevel.parse? = none := by
        cases ht : e.get levelVariable with
        | text text =>
          refine Option.eq_none_iff_forall_ne_some.mpr fun l hl => ?_
          exact h e text l he ht (LogLevel.read?_eq_some_iff.mp hl)
        | _ => rfl
      rw [Option.bind_some, hn, Option.getD_none]

/-- The level of the log along the calls `cs`, as their answers and the lines show it. -/
structure Heeds (env : Environment) (cs : List Call) (answers : List Datum) (s : Session) :
    Prop where
  told (before rest : List Call) (l : LogLevel) : cs = before ++ rest →
    (levelAt env before = l ↔ Told env before l)
  level (before rest : List Call) (t : Nat) : cs = before ++ ⟨t, .level⟩ :: rest →
    answers[before.length]? = some (levelAt env (before ++ [⟨t, .level⟩])).datum
  enabled (before rest : List Call) (t : Nat) (l : LogLevel) :
    cs = before ++ ⟨t, .enabled l⟩ :: rest → answers[before.length]? =
      some (.bool (l.number ≤ (levelAt env (before ++ [⟨t, .enabled l⟩])).number))
  lines : s.log.lines.reverse.map (fun l => (l.level, l.message)) = written env [] cs

/-- The level is the one that was chosen last, else what the environment had for it at the first
call that asked. The lines up to that level are written in the order of the calls. -/
theorem runAll_heeds (env : Environment) (cs : List Call) :
    Heeds env cs (runAll { env } cs).1 (runAll { env } cs).2 where
  told before _ l _ :=
    ⟨fun h => h ▸ told_levelAt env before, Told.levelAt_eq⟩
  level := by
    rintro before rest t rfl
    rw [answer_at, ← settle_level env before (c := ⟨t, .level⟩) rfl rfl]
    rfl
  enabled := by
    rintro before rest t l rfl
    rw [answer_at, ← settle_level env before (c := ⟨t, .enabled l⟩) rfl rfl]
    rfl
  lines := after_lines env cs

/-- The environment asks for lines up to a level that no later change of the variable undoes. -/
def asked : Environment := Environment.empty.set levelVariable (.text " DeBug\t")

def asking : List Call :=
  [⟨0, .emit .trace "a"⟩, ⟨1, .setVariable levelVariable (.text "off")⟩, ⟨1, .emit .debug "b"⟩,
    ⟨0, .level⟩]

theorem runAll_heeds_asked :
    Told asked (asking.take 3) .debug ∧
      (runAll { env := asked } asking).1[3]? = some LogLevel.debug.datum ∧
      (runAll { env := asked } asking).2.log.lines.reverse.map (fun l => (l.level, l.message)) =
        [(.debug, "b")] := by
  have h := runAll_heeds asked asking
  have hlevel : levelAt asked asking = .debug := by decide +kernel
  refine ⟨(h.told _ [⟨0, .level⟩] _ rfl).mp (by decide +kernel), ?_, ?_⟩
  · have ha := h.level (asking.take 3) [] 0 rfl
    rwa [show asking.take 3 ++ [⟨0, .level⟩] = asking from rfl, hlevel] at ha
  · rw [h.lines]
    decide +kernel

theorem runAll_append (s : Session) (before cs : List Call) :
    (runAll s (before ++ cs)).2 = (runAll (runAll s before).2 cs).2 := by
  induction before generalizing s with
  | nil => rfl
  | cons c before ih =>
    rw [List.cons_append, runAll_cons, runAll_cons]
    exact ih _

theorem flush_of_unsettled (env : Environment) {cs : List Call}
    (h : ∀ c ∈ cs, c.command.settles = false) :
    (after env cs).log.settled = false ∧
      (after env cs).log.flush = (chosenFlush cs).getD false := by
  induction cs using List.reverseRecOn with
  | nil => exact ⟨rfl, rfl⟩
  | append_singleton cs c ih =>
    obtain ⟨hs, hf⟩ := ih fun d hd => h d (List.mem_append_left _ hd)
    have hc : c.command.settles = false := h c (by simp)
    have hr : c.command.reads = false := (Bool.or_eq_false_iff.mp hc).1
    obtain ⟨h₁, -, h₃⟩ := step_settings (after env cs) c
    rw [after_concat, h₁, h₃, hs, hc, chosenFlush_concat, hr, hf]
    exact ⟨rfl, by cases c.command.flush? <;> rfl⟩

theorem flush_of_settled {s : Session} (h : s.log.settled = true) (cs : List Call) :
    (runAll s cs).2.log.settled = true ∧
      (runAll s cs).2.log.flush = (chosenFlush cs).getD s.log.flush := by
  induction cs using List.reverseRecOn with
  | nil => exact ⟨h, rfl⟩
  | append_singleton cs c ih =>
    obtain ⟨hs, hf⟩ := ih
    obtain ⟨h₁, -, h₃⟩ := step_settings (runAll s cs).2 c
    rw [runAll_concat]
    refine ⟨by rw [h₁, hs, Bool.true_or], ?_⟩
    rw [h₃, settle_of_settled hs, ite_self, hf, chosenFlush_concat]
    cases c.command.flush? <;> rfl

theorem after_flush (env : Environment) (cs : List Call) :
    (after env cs).log.flush = flushAt env cs := by
  have hearly : ∀ c ∈ cs.takeWhile (fun c => !c.command.settles), c.command.settles = false :=
    fun c hc => by simpa using List.all_eq_true.mp List.all_takeWhile c hc
  obtain ⟨hs, hf⟩ := flush_of_unsettled env hearly
  have hsplit := List.takeWhile_append_dropWhile (p := fun c : Call => !c.command.settles) (l := cs)
  unfold flushAt
  generalize cs.takeWhile (fun c => !c.command.settles) = early at *
  cases hd : cs.dropWhile fun c => !c.command.settles with
  | nil =>
    rw [hd, List.append_nil] at hsplit
    rw [← hsplit, hf]
  | cons c later =>
    have hc : c.command.settles = true := by
      have := List.head_dropWhile_not (fun c : Call => !c.command.settles) (l := cs)
        (by rw [hd]; exact List.cons_ne_nil _ _)
      simpa [hd] using this
    rw [hd] at hsplit
    obtain ⟨h₁, -, h₃⟩ := step_settings (after env early) c
    rw [hs, hc, Bool.false_or] at h₁
    have hc' : c.command.flush? = none := by
      cases hcmd : c.command <;>
        simp_all [Command.settles, Command.reads, Command.level?, Command.flush?]
    have hrun : after env cs = (runAll ((after env early).step c).2 later).2 := by
      rw [← hsplit, after, runAll_append]
      rfl
    rw [hrun, (flush_of_settled h₁ later).2, h₃, hc', hf, Option.getD_none,
      (settle_of_unsettled hs _).2, after_env]

/-- A query of the flush finds what was chosen since the settings are in place, else what the
environment had for it when they were read. A level that was chosen first keeps the environment
from being read, and the flush that was chosen before it. -/
theorem runAll_flush (env : Environment) (before rest : List Call) (t : Nat) :
    (runAll { env } (before ++ ⟨t, .flush⟩ :: rest)).1[before.length]? =
      some (.bool (flushAt env (before ++ [⟨t, .flush⟩]))) := by
  rw [answer_at, ← after_flush, after_concat]
  rfl

-- A flush that is forced first is gone when it is asked for.
example : flushAt .empty [⟨0, .setFlush true⟩, ⟨0, .flush⟩] = false := by decide

end Switchyard.Log.Session
