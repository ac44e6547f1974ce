import Mathlib.Data.List.Induction
import Switchyard.Config.Session
import Switchyard.Proofs.Config.Sizes

/-!
# The configuration is fixed once

The first command that makes a choice fixes the configuration of the process: a valid draft that is
offered for it, or a look at it, which takes what the environment has at that moment or else the
standard. No later command changes it, whatever becomes of the variables.
-/

namespace Switchyard

theorem Config.isValid_iff {c : Config} : c.isValid = true ↔
    16 * 1024 ≤ c.stackSize ∧ c.stackSize ≤ 1024 * 1024 * 1024 ∧ 1 ≤ c.maxNestingDepth := by
  unfold isValid fault?
  split
  · simp; omega
  · split
    · simp; omega
    · split
      · simp; omega
      · simp; omega

theorem Config.fallback_eq (env : Environment) : fallback env =
    if 16 * 1024 ≤ (ofEnvironment env).stackSize ∧
      (ofEnvironment env).stackSize ≤ 1024 * 1024 * 1024 ∧
      1 ≤ (ofEnvironment env).maxNestingDepth then ofEnvironment env else standard := by
  simp only [fallback, isValid_iff]

namespace Config.Session

variable {env : Environment} {s : Session} {c : Command} {cs : List Command} {v : Config}

def runOn (s : Session) (cs : List Command) : Session := cs.foldl (fun s c => (s.step c).2) s

def after (env : Environment) (cs : List Command) : Session := runOn { env } cs

/-- The environment after the command. -/
def Command.change : Command → Environment → Environment
  | setVariable name v, env => env.set name v
  | _, env => env

def envAfter (env : Environment) (cs : List Command) : Environment :=
  cs.foldl (fun env c => c.change env) env

theorem runOn_append (s : Session) (cs ds : List Command) :
    s.runOn (cs ++ ds) = (s.runOn cs).runOn ds :=
  List.foldl_append

theorem after_concat (env : Environment) (cs : List Command) (c : Command) :
    after env (cs ++ [c]) = ((after env cs).step c).2 :=
  runOn_append { env } cs [c]

theorem answer_at (s : Session) (before rest : List Command) (c : Command) :
    (runAll s (before ++ c :: rest))[before.length]? = some ((s.runOn before).step c).1 := by
  induction before generalizing s with
  | nil => rfl
  | cons d before ih => exact ih (s.step d).2

theorem answer_after (env : Environment) (before rest : List Command) (c : Command) :
    (runAll { env } (before ++ c :: rest))[before.length]? = some ((after env before).step c).1 :=
  answer_at { env } before rest c

theorem env_step (s : Session) (c : Command) : (s.step c).2.env = c.change s.env := by
  cases c with
  | validate | fix =>
    simp only [step]
    split <;> rfl
  | _ => rfl

theorem after_env (env : Environment) (cs : List Command) : (after env cs).env = envAfter env cs := by
  induction cs using List.reverseRecOn with
  | nil => rfl
  | append_singleton cs c ih =>
    rw [after_concat, env_step, ih, envAfter, envAfter, List.foldl_append]
    rfl

/-- What the command would fix the configuration at. -/
def choice? (s : Session) : Command → Option Config
  | .fix => if s.draft.isValid then some s.draft else none
  | .get | .getEquals => some (fallback s.env)
  | _ => none

def firstChoice (s : Session) : List Command → Option Config
  | [] => none
  | c :: cs => (s.choice? c).or (firstChoice (s.step c).2 cs)

theorem firstChoice_append (s : Session) (cs ds : List Command) :
    s.firstChoice (cs ++ ds) = (s.firstChoice cs).or ((s.runOn cs).firstChoice ds) := by
  induction cs generalizing s with
  | nil => rfl
  | cons c cs ih =>
    rw [List.cons_append, firstChoice, ih, firstChoice, Option.or_assoc]
    rfl

theorem firstChoice_concat (s : Session) (cs : List Command) (c : Command) :
    s.firstChoice (cs ++ [c]) = (s.firstChoice cs).or ((s.runOn cs).choice? c) := by
  rw [firstChoice_append, firstChoice, firstChoice, Option.or_none]

theorem isValid_of_choice? (h : s.choice? c = some v) : v.isValid = true := by
  cases c with
  | fix =>
    simp only [choice?] at h
    split at h
    · next hd => exact Option.some.inj h ▸ hd
    · cases h
  | get => exact Option.some.inj h ▸ fallback_isValid s.env
  | getEquals => exact Option.some.inj h ▸ fallback_isValid s.env
  | _ => cases h

/-- The three ends of an offer: an invalid draft is refused as such, a valid one that comes late is
refused for that, and a valid one that comes first is taken. -/
theorem step_fix (s : Session) :
    (∃ f, s.draft.fault? = some f ∧ s.step .fix =
      ((SwitchError.invalidConfig f.reason).datum, s.register (.invalidConfig f.reason))) ∨
    (s.draft.isValid = true ∧ s.fixed.isSome = true ∧ s.step .fix =
      (SwitchError.alreadyInitialized.datum, s.register .alreadyInitialized)) ∨
    (s.draft.isValid = true ∧ s.fixed = none ∧ s.step .fix =
      (.ok, { s with fixed := some s.draft })) := by
  cases hf : s.draft.fault? with
  | some f => exact .inl ⟨f, rfl, by simp only [step, ConfigCell.fix, hf]; rfl⟩
  | none =>
    have hv : s.draft.isValid = true := by rw [isValid, hf]; rfl
    cases hc : s.fixed with
    | some v => exact .inr (.inl ⟨hv, rfl, by simp only [step, ConfigCell.fix, hf, hc]; rfl⟩)
    | none => exact .inr (.inr ⟨hv, rfl, by simp only [step, ConfigCell.fix, hf, hc]⟩)

/-- A command fixes the configuration at its choice, unless it is fixed. -/
theorem step_fixed (s : Session) (c : Command) :
    (s.step c).2.fixed = s.fixed.or (s.choice? c) := by
  have hget : some (s.fixed.getD (fallback s.env)) = s.fixed.or (some (fallback s.env)) := by
    cases s.fixed <;> rfl
  cases c with
  | fix =>
    obtain ⟨f, hf, h⟩ | ⟨hv, hs, h⟩ | ⟨hv, hn, h⟩ := s.step_fix
    · rw [h, choice?, if_neg (by simp [isValid, hf]), Option.or_none]
      rfl
    · rw [h, choice?, if_pos hv]
      obtain ⟨v, hs⟩ := Option.isSome_iff_exists.mp hs
      simp [register, hs]
    · rw [h, choice?, if_pos hv, hn]
      rfl
  | get => exact hget
  | getEquals => exact hget
  | validate =>
    simp only [step, choice?]
    split <;> exact Option.or_none.symm
  | _ => exact Option.or_none.symm

theorem runOn_fixed (s : Session) (cs : List Command) :
    (s.runOn cs).fixed = s.fixed.or (s.firstChoice cs) := by
  induction cs generalizing s with
  | nil => exact Option.or_none.symm
  | cons c cs ih =>
    change ((s.step c).2.runOn cs).fixed = _
    rw [ih, step_fixed, firstChoice, Option.or_assoc]

theorem after_fixed (env : Environment) (cs : List Command) :
    (after env cs).fixed = firstChoice { env } cs :=
  runOn_fixed { env } cs

theorem firstChoice_isValid (h : s.firstChoice cs = some v) : v.isValid = true := by
  induction cs generalizing s with
  | nil => cases h
  | cons c cs ih =>
    rw [firstChoice, Option.or_eq_some_iff] at h
    rcases h with h | ⟨-, h⟩
    · exact isValid_of_choice? h
    · exact ih h

theorem runOn_of_fixed (h : s.fixed = some v) (cs : List Command) : (s.runOn cs).fixed = some v := by
  rw [runOn_fixed, h, Option.some_or]

theorem step_fix_eq_ok : (s.step .fix).1 = .ok ↔ s.draft.isValid = true ∧ s.fixed = none := by
  obtain ⟨f, hf, h⟩ | ⟨hv, hs, h⟩ | ⟨hv, hn, h⟩ := s.step_fix
  · rw [h]
    constructor
    · intro hd
      cases hd
    · rintro ⟨hv, -⟩
      simp [isValid, hf] at hv
  · rw [h]
    constructor
    · intro hd
      cases hd
    · rintro ⟨-, hn⟩
      rw [hn] at hs
      cases hs
  · rw [h]
    exact ⟨fun _ => ⟨hv, hn⟩, fun _ => rfl⟩

theorem exists_look (env : Environment) (cs : List Command) (hc : c = .get ∨ c = .getEquals) :
    ∃ v, firstChoice { env } (cs ++ [c]) = some v ∧
      ConfigCell.get (after env cs).env (after env cs).fixed = (v, some v) := by
  have hchoice : (after env cs).choice? c = some (fallback (after env cs).env) := by
    rcases hc with rfl | rfl <;> rfl
  refine ⟨_, ?_, rfl⟩
  rw [firstChoice_concat, after_fixed]
  change ((firstChoice { env } cs).or ((after env cs).choice? c)) = _
  rw [hchoice]
  cases firstChoice { env } cs <;> rfl

theorem after_of_fixed {before rest : List Command} (h : (after env before).fixed = some v) :
    (after env (before ++ rest)).fixed = some v := by
  rw [after, runOn_append]
  exact runOn_of_fixed h rest

/-- An offer is taken exactly if its draft is valid and no command before it makes a choice. -/
theorem taken_iff (env : Environment) (before rest : List Command) :
    (runAll { env } (before ++ .fix :: rest))[before.length]? = some .ok ↔
      (after env before).draft.isValid = true ∧ firstChoice { env } before = none := by
  rw [answer_after, Option.some_inj, step_fix_eq_ok, after_fixed]

/-- What the commands `cs` and their answers show of the configuration. -/
structure FixedOnce (env : Environment) (cs : List Command) (answers : List Datum) : Prop where
  /-- The configuration is the first choice of all, and it is valid. -/
  fixed : ∀ before rest, cs = before ++ rest → (after env before).fixed = firstChoice { env } before
  valid : ∀ before rest v, cs = before ++ rest → (after env before).fixed = some v →
    16 * 1024 ≤ v.stackSize ∧ v.stackSize ≤ 1024 * 1024 * 1024 ∧ 1 ≤ v.maxNestingDepth
  stays : ∀ before rest v, cs = before ++ rest → (after env before).fixed = some v →
    (after env cs).fixed = some v
  /-- An offer is taken exactly if its draft is valid and comes before every choice. -/
  taken : ∀ before rest, cs = before ++ .fix :: rest →
    (answers[before.length]? = some .ok ↔
      (after env before).draft.isValid = true ∧ firstChoice { env } before = none)
  takenOnce : ∀ before between rest, cs = before ++ .fix :: (between ++ .fix :: rest) →
    answers[before.length]? = some .ok → answers[before.length + 1 + between.length]? ≠ some .ok
  /-- An offer that is refused tells why, and leaves nothing but the pending failure. -/
  invalid : ∀ before rest f, cs = before ++ .fix :: rest →
    (after env before).draft.fault? = some f →
    answers[before.length]? = some (SwitchError.invalidConfig f.reason).datum ∧
      after env (before ++ [.fix]) = (after env before).register (.invalidConfig f.reason)
  late : ∀ before rest, cs = before ++ .fix :: rest →
    (after env before).draft.isValid = true → (after env before).fixed.isSome = true →
    answers[before.length]? = some SwitchError.alreadyInitialized.datum ∧
      after env (before ++ [.fix]) = (after env before).register .alreadyInitialized
  /-- A look answers with the configuration, which is fixed from then on. -/
  looked : ∀ before rest, cs = before ++ .get :: rest → ∃ v,
    answers[before.length]? = some (pair v) ∧
      firstChoice { env } (before ++ [.get]) = some v ∧ (after env cs).fixed = some v
  /-- A look that comes before every choice takes what the variables make at that moment, unless
  that is invalid. -/
  first : ∀ before rest c, cs = before ++ c :: rest → c = .get ∨ c = .getEquals →
    firstChoice { env } before = none → ∃ e, FromVariables (envAfter env before) e ∧
      (after env cs).fixed = some (if 16 * 1024 ≤ e.stackSize ∧
        e.stackSize ≤ 1024 * 1024 * 1024 ∧ 1 ≤ e.maxNestingDepth then e else standard)
  compared : ∀ before rest, cs = before ++ .getEquals :: rest → ∃ v,
    answers[before.length]? = some (.bool (v == (after env before).draft)) ∧
      firstChoice { env } (before ++ [.getEquals]) = some v ∧ (after env cs).fixed = some v

/-- Whatever the variables are and become: the first valid offer or look fixes the configuration,
which is valid, and every later offer is refused without effect. -/
theorem runAll_fixedOnce (env : Environment) (cs : List Command) :
    FixedOnce env cs (runAll { env } cs) where
  fixed before _ _ := after_fixed env before
  valid before rest v hcs h :=
    isValid_iff.mp (firstChoice_isValid ((after_fixed env before).symm.trans h))
  stays := by
    rintro before rest v rfl h
    exact after_of_fixed h
  taken := by
    rintro before rest rfl
    exact taken_iff env before rest
  takenOnce := by
    rintro before between rest rfl h₁ h₂
    obtain ⟨hv, -⟩ := (taken_iff env before _).mp h₁
    have hat : before.length + 1 + between.length = (before ++ .fix :: between).length := by
      simp only [List.length_append, List.length_cons]
      omega
    have hsplit : before ++ .fix :: (between ++ .fix :: rest) =
        (before ++ .fix :: between) ++ .fix :: rest := by
      rw [List.append_assoc, List.cons_append]
    rw [hat, hsplit] at h₂
    obtain ⟨-, hn⟩ := (taken_iff env _ rest).mp h₂
    have hchoice : (runOn { env } before).choice? .fix = some (after env before).draft := if_pos hv
    rw [firstChoice_append, firstChoice, hchoice, Option.some_or, Option.or_eq_none_iff] at hn
    cases hn.2
  invalid := by
    rintro before rest f rfl hf
    rw [answer_after, after_concat]
    obtain ⟨g, hg, h⟩ | ⟨hv, -⟩ | ⟨hv, -⟩ := (after env before).step_fix
    · obtain rfl : g = f := Option.some.inj (hg.symm.trans hf)
      rw [h]
      exact ⟨rfl, rfl⟩
    · simp [isValid, hf] at hv
    · simp [isValid, hf] at hv
  late := by
    rintro before rest rfl hv hs
    rw [answer_after, after_concat]
    obtain ⟨g, hg, -⟩ | ⟨-, -, h⟩ | ⟨-, hn, -⟩ := (after env before).step_fix
    · simp [isValid, hg] at hv
    · rw [h]
      exact ⟨rfl, rfl⟩
    · rw [hn] at hs
      cases hs
  looked := by
    rintro before rest rfl
    obtain ⟨v, hv, hget⟩ := exists_look env before (.inl rfl : Command.get = .get ∨ _)
    refine ⟨v, ?_, hv, ?_⟩
    · rw [answer_after]
      change some (pair (ConfigCell.get (after env before).env (after env before).fixed).1) = _
      rw [hget]
    · rw [List.append_cons]
      exact after_of_fixed ((after_fixed env _).trans hv)
  first := by
    rintro before rest c rfl hc hn
    refine ⟨_, fromVariables_ofEnvironment _, ?_⟩
    rw [List.append_cons, ← fallback_eq, ← after_env]
    refine after_of_fixed ?_
    have hchoice : (after env before).choice? c = some (fallback (after env before).env) := by
      rcases hc with rfl | rfl <;> rfl
    rw [after_fixed, firstChoice_concat, hn, Option.none_or]
    exact hchoice
  compared := by
    rintro before rest rfl
    obtain ⟨v, hv, hget⟩ := exists_look env before (.inr rfl : Command.getEquals = .get ∨ _)
    refine ⟨v, ?_, hv, ?_⟩
    · rw [answer_after]
      change some (Datum.bool ((ConfigCell.get (after env before).env
        (after env before).fixed).1 == (after env before).draft)) = _
      rw [hget]
    · rw [List.append_cons]
      exact after_of_fixed ((after_fixed env _).trans hv)

/-- The first look finds a stack size, with a sign and between blanks, and no depth. -/
def looking : List Command :=
  [.setVariable stackVariable (.text " +32768 "), .get,
    .setVariable stackVariable (.text "65536"), .get, .fix]

theorem runAll_fixedOnce_looking :
    (after .empty looking).fixed = some ⟨32768, 1048576⟩ ∧
      (runAll { env := .empty } looking)[3]? = some (pair ⟨32768, 1048576⟩) ∧
      (runAll { env := .empty } looking)[4]? = some SwitchError.alreadyInitialized.datum := by
  have h := runAll_fixedOnce .empty looking
  have hfixed : (after .empty looking).fixed = some ⟨32768, 1048576⟩ := by
    obtain ⟨e, he, hf⟩ := h.first [.setVariable stackVariable (.text " +32768 ")] _ .get rfl
      (.inl rfl) rfl
    rw [hf, fromVariables_iff.mp he]
    decide +kernel
  refine ⟨hfixed, ?_, ?_⟩
  · obtain ⟨v, ha, -, hv⟩ := h.looked (looking.take 3) [.fix] rfl
    rw [hfixed, Option.some_inj] at hv
    rw [hv]
    exact ha
  · exact (h.late (looking.take 4) [] rfl (by decide +kernel) (by decide +kernel)).1

end Config.Session

end Switchyard
