import LeftRecursion.Answer
import LeftRecursion.Proofs.Json.RoundTrip
import LeftRecursion.Proofs.Reading.Pieces

/-!
# The answers in two formats

The JSON answer and the plain answer to a text hold the same: either both are the record of a
failure, or the JSON answer is read as rows of which the plain answer is the join. The start of the
plain answer tells which of the two it is.
-/

namespace LeftRecursion

/-- How a non-terminal and its alternatives are written. -/
structure Row where
  left : String
  rights : List String

namespace Row

def plain (r : Row) : String :=
  r.left ++ " -> " ++ " ".intercalate r.rights

def toJson (r : Row) : Json :=
  .record [("left", .text r.left), ("rights", .list (r.rights.map .text))]

def join (rows : List Row) : String :=
  "\n".intercalate (rows.map plain)

/-- The record of which the rows are the productions. -/
def listing (rows : List Row) : Json :=
  .record [("productions", .list (rows.map toJson))]

end Row

namespace Grammar

def rows (g : Grammar) : List Row :=
  g.nonTerminals.map fun a => ⟨String.singleton a, (g.alternatives a).map Body.toString⟩

theorem rows_eq_map_rules (g : Grammar) :
    g.rows = g.rules.map fun r => ⟨String.singleton r.left, r.alternatives.map Body.toString⟩ := by
  rw [rules_eq_map, List.map_map]
  rfl

theorem toJson_eq_listing (g : Grammar) : g.toJson = Row.listing g.rows := by
  rw [toJson, Row.listing, rows_eq_map_rules, List.map_map]
  simp [Rule.toJson, Row.toJson, Function.comp_def]

theorem toList_render_plain (g : Grammar) :
    (g.render .plain).toList = ['\n'].intercalate (g.rules.map Rule.plain) :=
  String.toList_ofList

theorem join_rows (g : Grammar) : Row.join g.rows = g.render .plain := by
  have row (r : Rule) :
      (Row.plain ⟨String.singleton r.left, r.alternatives.map Body.toString⟩).toList = r.plain := by
    simp [Row.plain, Rule.plain, Body.toString, Function.comp_def]
  apply String.toList_injective
  rw [toList_render_plain, Row.join, String.toList_intercalate, rows_eq_map_rules]
  simp [Function.comp_def, row]

end Grammar

def failureStart : List Char := ['{', '"', 'e', 'r', 'r', 'o', 'r']

theorem Failure.start_prefix_toJson (e : Failure) : failureStart <+: e.toJson.print.toList := by
  have text : e.toJson.print.toList =
      failureStart ++ ('"' :: ':' :: Json.quote e.message.toList ++ ['}']) := by
    simp only [Failure.toJson, Json.print, Json.printChars, Json.printFields, String.toList_ofList,
      List.intercalate_singleton]
    rfl
  rw [text]
  exact List.prefix_append _ _

/-- No format starts a grammar so: a name stands before a blank, the array before its columns, the
record before its productions. -/
theorem Grammar.not_failureStart_prefix_render (g : Grammar) (f : Format) :
    ¬failureStart <+: (g.render f).toList := by
  intro start
  cases f with
  | plain =>
    rw [toList_render_plain] at start
    cases rules : g.rules with
    | nil => simp [rules, failureStart] at start
    | cons r rs =>
      obtain ⟨rest, text⟩ : ∃ rest,
          ['\n'].intercalate ((r :: rs).map Rule.plain) = r.left :: ' ' :: rest := by
        rw [List.map_cons, intercalate_cons]
        split <;> exact ⟨_, rfl⟩
      rw [rules, text] at start
      simp [failureStart] at start
  | latex =>
    obtain ⟨rest, text⟩ : ∃ rest, (g.render .latex).toList = '\\' :: rest := by
      rw [render, String.toList_ofList, latex]
      cases g.rules <;> exact ⟨_, rfl⟩
    simp [text, failureStart] at start
  | json =>
    obtain ⟨rest, text⟩ : ∃ rest, (g.render .json).toList = '{' :: '"' :: 'p' :: rest := by
      rw [render, Json.print, String.toList_ofList]
      exact ⟨_, rfl⟩
    simp [text, failureStart] at start

variable {s : String} {h : Grammar} {e : Failure}

theorem eliminateText_eq_ok_iff :
    eliminateText s = .ok h ↔ ∃ g, Grammar.parse s = .ok g ∧ g.eliminate = .ok h := by
  cases read : Grammar.parse s <;> simp [eliminateText, read, Bind.bind, Except.bind]

theorem eliminateText_eq_error_iff :
    eliminateText s = .error e ↔
      Grammar.parse s = .error e ∨ ∃ g, Grammar.parse s = .ok g ∧ g.eliminate = .error e := by
  cases read : Grammar.parse s <;> simp [eliminateText, read, Bind.bind, Except.bind]

theorem answer_of_ok (ok : eliminateText s = .ok h) (f : Format) : answer f s = h.render f := by
  simp [answer, ok]

theorem answer_of_error (failed : eliminateText s = .error e) (f : Format) :
    answer f s = e.toJson.print := by
  simp [answer, failed]

theorem read?_answer_of_error (failed : eliminateText s = .error e) (f : Format) :
    Json.read? (answer f s) = some (.record [("error", .text e.message)]) := by
  rw [answer_of_error failed, Json.read?_print, Failure.toJson]

/-- Where reading or eliminating fails, the JSON answer and the plain answer are one text, and it
reads as the record of the failure. Where both succeed, the JSON answer reads as the rows of the new
grammar, and the plain answer is the join of these rows. Only a failure starts as a failure does. -/
theorem answers_agree (s : String) :
    (∃ e, (Grammar.parse s = .error e ∨ ∃ g, Grammar.parse s = .ok g ∧ g.eliminate = .error e) ∧
      answer .json s = answer .plain s ∧
      Json.read? (answer .json s) = some (.record [("error", .text e.message)]) ∧
      failureStart <+: (answer .plain s).toList) ∨
    ∃ g h, Grammar.parse s = .ok g ∧ g.eliminate = .ok h ∧
      Json.read? (answer .json s) = some (Row.listing h.rows) ∧
      Row.join h.rows = answer .plain s ∧
      ¬failureStart <+: (answer .plain s).toList := by
  cases outcome : eliminateText s with
  | error e =>
    refine .inl ⟨e, eliminateText_eq_error_iff.1 outcome, ?_, read?_answer_of_error outcome _, ?_⟩
    · rw [answer_of_error outcome, answer_of_error outcome]
    · rw [answer_of_error outcome]
      exact e.start_prefix_toJson
  | ok h =>
    obtain ⟨g, read, freed⟩ := eliminateText_eq_ok_iff.1 outcome
    refine .inr ⟨g, h, read, freed, ?_, ?_, ?_⟩
    · rw [answer_of_ok outcome, ← Grammar.toJson_eq_listing]
      exact Json.read?_print _
    · rw [answer_of_ok outcome, Grammar.join_rows]
    · rw [answer_of_ok outcome]
      exact Grammar.not_failureStart_prefix_render h .plain

end LeftRecursion
