import Mathlib.Data.List.Basic

namespace TextLines

/-!
# Lines of a text

A text falls into the lines that a separator ends, and what follows the last
separator.  A property of texts can be shown line by line.
-/

variable {Letter : Type} [DecidableEq Letter] (newline : Letter)

/-- The lines that a separator ends. -/
def terminated (text : List Letter) : List (List Letter) :=
  (text.splitOn newline).dropLast

/-- What follows the last separator. -/
def unterminated (text : List Letter) : List Letter :=
  (text.splitOn newline).getLast (List.splitOn_ne_nil newline text)

variable {newline}

/-- A text without a separator is not terminated. -/
theorem terminated_open
    {text : List Letter}
    (noNewline : newline ∉ text) :
    terminated newline text = [] := by
  rw [terminated, List.splitOn_eq_singleton noNewline]
  rfl

theorem unterminated_open
    {text : List Letter}
    (noNewline : newline ∉ text) :
    unterminated newline text = text := by
  simp [unterminated, List.splitOn_eq_singleton noNewline]

/-- A line before a text is its first one. -/
theorem terminated_line
    {line : List Letter}
    (noNewline : newline ∉ line)
    (rest : List Letter) :
    terminated newline (line ++ newline :: rest) =
      line :: terminated newline rest := by
  rw [terminated,
    List.splitOn_append_cons_self_of_not_mem noNewline,
    List.dropLast_cons_of_ne_nil (List.splitOn_ne_nil newline rest)]
  rfl

theorem unterminated_line
    {line : List Letter}
    (noNewline : newline ∉ line)
    (rest : List Letter) :
    unterminated newline (line ++ newline :: rest) =
      unterminated newline rest := by
  simp only [unterminated,
    List.splitOn_append_cons_self_of_not_mem noNewline]
  exact List.getLast_cons (List.splitOn_ne_nil newline rest)

/-- A property of texts, shown for a line before a text and for the end. -/
theorem lines_induction
    (newline : Letter)
    {motive : List Letter → Prop}
    (last : ∀ text, newline ∉ text → motive text)
    (line :
      ∀ line rest,
        newline ∉ line →
        motive rest →
        motive (line ++ newline :: rest))
    (text : List Letter) :
    motive text := by
  induction length : text.length using Nat.strongRecOn
    generalizing text with
  | ind size inductionHypothesis =>
      by_cases found : newline ∈ text
      · obtain ⟨first, rest, rfl, notInFirst⟩ :=
          List.eq_append_cons_of_mem found
        apply line first rest notInFirst
        refine inductionHypothesis rest.length ?_ rest rfl
        rw [← length, List.length_append, List.length_cons]
        omega
      · exact last text found

/-- What follows the last separator contains none. -/
theorem notMem_unterminated (newline : Letter) (text : List Letter) :
    newline ∉ unterminated newline text := by
  induction text using lines_induction newline with
  | last text noNewline =>
      rwa [unterminated_open noNewline]
  | line first rest noNewline inductionHypothesis =>
      rwa [unterminated_line noNewline]

end TextLines
