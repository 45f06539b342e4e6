import Mathlib

/-!
# Words

The words of a text are the longest runs of it without a blank. `AtWord` says where the text can be cut.

* `words_blank`: a blank adds no word.
* `words_word`: a run behind a blank is one, once there is a blank behind it.
-/

namespace Words

variable {α : Type*} {blank : α → Bool} {text run : List α} {b : α}

/-- The words of a text. -/
def words (blank : α → Bool) (text : List α) : List (List α) :=
  (text.splitOnP blank).filter (· ≠ [])

/-- A word can begin behind the text: it is empty, or ends with a blank. -/
def AtWord (blank : α → Bool) (text : List α) : Prop :=
  text = [] ∨ ∃ before b, text = before ++ [b] ∧ blank b = true

@[simp] theorem words_nil : words blank [] = [] := by simp [words]

theorem words_append (hb : blank b = true) (run : List α) :
    words blank (text ++ b :: run) = words blank text ++ words blank run := by
  rw [words, List.splitOnP_append_cons _ _ hb, List.filter_append]
  rfl

/-- A blank adds no word. -/
theorem words_blank (hb : blank b = true) : words blank (text ++ [b]) = words blank text := by
  rw [words_append hb, words_nil, List.append_nil]

/-- A run without a blank is a word, or nothing. -/
theorem words_run (hrun : ∀ c ∈ run, blank c = false) (hne : run ≠ []) : words blank run = [run] := by
  rw [words, List.splitOnP_eq_singleton hrun, List.filter_cons_of_pos (by simpa using hne)]
  rfl

/-- **A word** behind a text. -/
theorem words_word (hat : AtWord blank text) (hrun : ∀ c ∈ run, blank c = false) (hne : run ≠ [])
    (hb : blank b = true) : words blank (text ++ run ++ [b]) = words blank text ++ [run] := by
  rw [words_blank hb]
  obtain rfl | ⟨before, b', rfl, hb'⟩ := hat
  · rw [List.nil_append, words_run hrun hne, words_nil, List.nil_append]
  · rw [List.append_assoc, List.singleton_append, words_append hb', words_run hrun hne, words_blank hb']

theorem atWord_blank (hb : blank b = true) : AtWord blank (text ++ [b]) :=
  Or.inr ⟨text, b, rfl, hb⟩

/-! ## Their room -/

theorem splitOnP_size (text : List α) :
    ((text.splitOnP blank).map fun run => run.length + 1).sum = text.length + 1 := by
  induction text with
  | nil => simp
  | cons c text ih =>
    rw [List.splitOnP_cons_eq_if_modifyHead]
    split
    · rw [List.map_cons, List.sum_cons, ih, List.length_nil, List.length_cons, Nat.zero_add, Nat.add_comm]
    · obtain ⟨run, runs, hruns⟩ := List.exists_cons_of_ne_nil (List.splitOnP_ne_nil blank text)
      rw [hruns, List.map_cons, List.sum_cons] at ih
      rw [hruns, List.modifyHead_cons, List.map_cons, List.sum_cons, List.length_cons, List.length_cons]
      omega

/-- **Words take no more room than the text**, with one place more for each, and for the text. -/
theorem words_size {found : List (List α)} (h : found.Sublist (words blank text)) :
    (found.map fun run => run.length + 1).sum ≤ text.length + 1 := by
  rw [← splitOnP_size text]
  exact ((h.trans List.filter_sublist).map _).sum_le_sum fun _ _ => Nat.zero_le _

end Words
