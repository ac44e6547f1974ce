import Switchyard.Log
import Switchyard.Proofs.Text.Trim

/-!
# How levels are spelled

A text spells a level when it is the name or the number of the level, whatever the case of its
letters and with any blanks at its ends. Every other text spells none.
-/

namespace Switchyard

open Text

namespace LogLevel

variable {s : String} {l : LogLevel}

def words : LogLevel → List String
  | off => ["off", "0"]
  | error => ["error", "1"]
  | warn => ["warn", "2"]
  | info => ["info", "3"]
  | debug => ["debug", "4"]
  | trace => ["trace", "5"]

/-- The text is a word for the level in some case, between blanks. -/
def Spelled (s : String) (l : LogLevel) : Prop :=
  ∃ core, Padded core s ∧ String.ofList (core.map Char.toLower) ∈ l.words

theorem words_letters : ∀ l : LogLevel, ∀ word ∈ l.words, ∀ c ∈ word.toList,
    isBlank c = false := by
  rintro (_ | _) <;> simp [words, isBlank]

theorem not_isBlank_of_mem_words {core : List Char}
    (h : String.ofList (core.map Char.toLower) ∈ l.words) : ∀ c ∈ core, isBlank c = false :=
  not_isBlank_of_toLower fun c hc => words_letters l _ h c (by rwa [String.toList_ofList])

theorem parse?_eq_some_iff_mem : parse? s = some l ↔ lower (trim s) ∈ l.words := by
  unfold parse?
  split <;> cases l <;> simp_all [words]

theorem lower_trim (s : String) :
    lower (trim s) = String.ofList ((trim s).toList.map Char.toLower) := by
  rw [← String.ofList_toList (s := lower _), lower, String.toList_map]

theorem parse?_eq_some_iff : parse? s = some l ↔ Spelled s l := by
  rw [parse?_eq_some_iff_mem, lower_trim]
  constructor
  · exact fun h => ⟨_, padded_trim s, h⟩
  · rintro ⟨core, hs, hw⟩
    rwa [hs.trim_eq (not_isBlank_of_mem_words hw), String.toList_ofList]

/-- Blanks are cut off twice, which is no more than once. -/
theorem read?_eq_some_iff :
    (Setting.text s).read? parse? = some l ↔ Spelled s l := by
  rw [Setting.read?, parse?_eq_some_iff]
  constructor
  · exact fun ⟨core, hs, hw⟩ => ⟨core, hs.of_trim, hw⟩
  · rintro ⟨core, hs, hw⟩
    rw [hs.trim_eq (not_isBlank_of_mem_words hw)]
    exact ⟨core, ⟨[], [], by simp, by simp, by simp⟩, hw⟩

end LogLevel

end Switchyard
