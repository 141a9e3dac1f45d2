import LeftRecursion.Text.Characters

/-!
# Lines and words

A line ends at a newline, and one carriage return before that newline belongs to the line end. A text
has the lines that `Lined` says, and no others (`lines_eq_iff`). Words are the longest runs of
characters that do not separate.
-/

namespace LeftRecursion.Text

def trimStart (cs : List Char) : List Char :=
  cs.dropWhile isBlank

def trimEnd (cs : List Char) : List Char :=
  (trimStart cs.reverse).reverse

def trim (cs : List Char) : List Char :=
  trimEnd (trimStart cs)

def dropReturn (cs : List Char) : List Char :=
  if cs.getLast? = some '\r' then cs.dropLast else cs

/-- The lines among the pieces between newlines: the last piece has no newline after it, so it keeps
its carriage return, and it is no line if it is empty. -/
def closeLines : List (List Char) → List (List Char)
  | [] => []
  | [piece] => if piece = [] then [] else [piece]
  | piece :: rest => dropReturn piece :: closeLines rest

def lines (cs : List Char) : List (List Char) :=
  closeLines (cs.splitOn '\n')

/-- `Lined cs ls` says how the text `cs` is made of the lines `ls` and of line ends. -/
inductive Lined : List Char → List (List Char) → Prop
  | nil : Lined [] []
  | last {line : List Char} : line ≠ [] → '\n' ∉ line → Lined line [line]
  | newline {line cs : List Char} {ls : List (List Char)} :
      '\n' ∉ line → line.getLast? ≠ some '\r' → Lined cs ls → Lined (line ++ '\n' :: cs) (line :: ls)
  | returnNewline {line cs : List Char} {ls : List (List Char)} :
      '\n' ∉ line → Lined cs ls → Lined (line ++ '\r' :: '\n' :: cs) (line :: ls)

variable {cs line : List Char} {ls : List (List Char)}

theorem dropReturn_concat (cs : List Char) : dropReturn (cs ++ ['\r']) = cs := by
  simp [dropReturn]

theorem dropReturn_cases (cs : List Char) :
    dropReturn cs = cs ∨ cs = dropReturn cs ++ ['\r'] := by
  by_cases last : cs.getLast? = some '\r'
  · obtain ⟨line, rfl⟩ := List.getLast?_eq_some_iff.1 last
    rw [dropReturn_concat]
    exact .inr rfl
  · exact .inl (if_neg last)

@[simp] theorem lines_nil : lines [] = [] := rfl

theorem lines_eq_singleton (nonempty : cs ≠ []) (free : '\n' ∉ cs) : lines cs = [cs] := by
  rw [lines, List.splitOn_eq_singleton free, closeLines, if_neg nonempty]

theorem lines_append_newline (free : '\n' ∉ cs) (ds : List Char) :
    lines (cs ++ '\n' :: ds) = dropReturn cs :: lines ds := by
  rw [lines, List.splitOn_append_cons_self_of_not_mem free, lines]
  cases pieces : ds.splitOn '\n' with
  | nil => exact absurd pieces (List.splitOn_ne_nil _ _)
  | cons piece rest => rfl

theorem Lined.lines_eq (lined : Lined cs ls) : lines cs = ls := by
  induction lined with
  | nil => rfl
  | last nonempty free => exact lines_eq_singleton nonempty free
  | newline free bare _ ih => rw [lines_append_newline free, ih, dropReturn, if_neg bare]
  | @returnNewline line cs ls free _ ih =>
    have free' : '\n' ∉ line ++ ['\r'] := by simpa using free
    have text : line ++ '\r' :: '\n' :: cs = (line ++ ['\r']) ++ '\n' :: cs := by simp
    rw [text, lines_append_newline free', ih, dropReturn_concat]

theorem lined_lines (cs : List Char) : Lined cs (lines cs) := by
  by_cases ends : '\n' ∈ cs
  · obtain ⟨line, rest, text, free⟩ := List.eq_append_cons_of_mem ends
    have lined : Lined rest (lines rest) := lined_lines rest
    subst text
    rw [lines_append_newline free]
    by_cases bare : line.getLast? = some '\r'
    · obtain ⟨line, rfl⟩ := List.getLast?_eq_some_iff.1 bare
      rw [dropReturn_concat, List.append_assoc]
      exact .returnNewline (fun inside => free (List.mem_append_left _ inside)) lined
    · rw [dropReturn, if_neg bare]
      exact .newline free bare lined
  · by_cases empty : cs = []
    · subst empty
      exact .nil
    · rw [lines_eq_singleton empty ends]
      exact .last empty ends
termination_by cs.length
decreasing_by simp_all; omega

theorem lines_eq_iff : lines cs = ls ↔ Lined cs ls :=
  ⟨fun same => same ▸ lined_lines cs, Lined.lines_eq⟩

example : lines "a\r\nb\n\nc\r".toList = ["a".toList, "b".toList, [], "c\r".toList] := by decide

def words (separates : Char → Bool) (cs : List Char) : List (List Char) :=
  (cs.splitOnP separates).filter (· ≠ [])

theorem ne_nil_of_mem_words {separates : Char → Bool} {word : List Char}
    (h : word ∈ words separates cs) : word ≠ [] := by
  simpa using (List.mem_filter.1 h).2

end LeftRecursion.Text
