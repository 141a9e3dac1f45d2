import LeftRecursion.Grammar.Lemmas
import LeftRecursion.Json

/-!
# Output formats

Plain text has one rule a line and can be read as a grammar. LaTeX is a displayed array with one
rule a row; every symbol is escaped by itself, since the layout is made of the characters that need
it. JSON is a record of the rules.
-/

namespace LeftRecursion

def Rule.plain (r : Rule) : List Char :=
  r.left :: " -> ".toList ++ [' '].intercalate (r.alternatives.map Body.toChars)

def Grammar.plain (g : Grammar) : List Char :=
  ['\n'].intercalate (g.rules.map Rule.plain)

namespace Latex

/-- A character where LaTeX expects text. -/
def escape (c : Char) : List Char :=
  if c ∈ ['&', '%', '$', '#', '_', '{', '}'] then ['\\', c]
  else if c ∈ ['[', ']'] then ['{', c, '}']
  else if c = '~' then "\\textasciitilde\x7b\x7d".toList
  else if c = '^' then "\\textasciicircum\x7b\x7d".toList
  else if c = '<' then "\\textless\x7b\x7d".toList
  else if c = '>' then "\\textgreater\x7b\x7d".toList
  else if c = '!' then "!\x7b\x7d".toList
  else if c = '\\' then "\\textbackslash\x7b\x7d".toList
  else [c]

end Latex

def Symbol.latex : Symbol → List Char
  | .epsilon => "\\epsilon".toList
  | s => Latex.escape s.toChar

def Body.latex (p : Body) : List Char :=
  " \\ ".toList.intercalate (p.map Symbol.latex)

def Rule.latexRight (r : Rule) : List Char :=
  " \\mid ".toList.intercalate (r.alternatives.map Body.latex)

def Rule.latex (r : Rule) : List Char :=
  Latex.escape r.left ++ " \\rightarrow ".toList ++ r.latexRight

/-- A rule as a row of the array, with the arrow in a column of its own. -/
def Rule.latexRow (r : Rule) : List Char :=
  Latex.escape r.left ++ " & \\rightarrow &".toList ++ r.latexRight

def Grammar.latex (g : Grammar) : List Char :=
  "\\\\\n".toList.intercalate
    ("\\[\\begin\x7barray\x7d\x7bcll\x7d".toList :: g.rules.map Rule.latexRow ++
      ["\\end\x7barray\x7d\\]".toList])

example : (∅ : Grammar).latex =
    "\\[\\begin\x7barray\x7d\x7bcll\x7d\\\\\n\\end\x7barray\x7d\\]".toList := by decide

def Rule.toJson (r : Rule) : Json :=
  .record [
    ("left", .text (String.singleton r.left)),
    ("rights", .list (r.alternatives.map fun p => .text p.toString))]

def Grammar.toJson (g : Grammar) : Json :=
  .record [("productions", .list (g.rules.map Rule.toJson))]

inductive Format where
  | plain
  | latex
  | json
  deriving DecidableEq

def Grammar.render (g : Grammar) : Format → String
  | .plain => String.ofList g.plain
  | .latex => String.ofList g.latex
  | .json => g.toJson.print

end LeftRecursion
