import LeftRecursion.Grammar.Lemmas
import LeftRecursion.Text.Lines
import LeftRecursion.Trace

/-!
# Reading a grammar

A written grammar has one production a line, with one arrow. The first character before the arrow
names the non-terminal, and behind it the alternatives stand apart, separated by blanks and bars.
Lines of blanks alone are skipped, though they count, and lines for the same name add up. A
character is a non-terminal if it is upper case or if some line, above or below, declares it.
-/

namespace LeftRecursion

open Text

/-- The pieces of a text between its arrows, which are found from the left. -/
def splitArrows : List Char → List (List Char)
  | [] => [[]]
  | '-' :: '>' :: cs => [] :: splitArrows cs
  | c :: cs => (splitArrows cs).modifyHead (c :: ·)

structure Line where
  name : Char
  /-- What follows the name before the arrow. It means nothing. -/
  rest : List Char
  right : List Char
  deriving DecidableEq

namespace Line

/-- Reads a line that has exactly one arrow and something else than blanks before it. -/
def ofChars? (cs : List Char) : Option Line :=
  match splitArrows cs with
  | [left, right] =>
    match trim left with
    | [] => none
    | name :: rest => some ⟨name, rest, right⟩
  | _ => none

def isSeparator (c : Char) : Bool :=
  isBlank c || c = '|'

def alternatives (isNonTerminal : Char → Bool) (l : Line) : List Body :=
  (words isSeparator l.right).map (Body.ofChars isNonTerminal)

end Line

example : splitArrows "-->>a->".toList = ["-".toList, ">a".toList, []] := by decide

open Text

/-- Reads lines of which the first has number `n`, up to the first that is no production. -/
def readLines (n : Nat) : List (List Char) → Traced (List Line)
  | [] => pure []
  | cs :: rest =>
    if cs.all isBlank then
      readLines (n + 1) rest
    else match Line.ofChars? cs with
      | none => Traced.fail (.malformedLine n (String.ofList (trim cs)))
      | some line => do
        if line.rest ≠ [] then
          Traced.tell (.longLeftSide n line.name line.rest)
        return line :: (← readLines (n + 1) rest)

namespace Grammar

def addLines (isNonTerminal : Char → Bool) (g : Grammar) (ls : List Line) : Grammar :=
  ls.foldl (fun g l => g.addAlternatives l.name (l.alternatives isNonTerminal)) g

def ofLines (ls : List Line) : Grammar :=
  addLines (fun c => isUppercase c || ls.any (·.name = c)) ∅ ls

def parseTraced (s : String) : Traced Grammar := do
  return ofLines (← readLines 1 (lines s.toList))

def parse (s : String) : Except Failure Grammar :=
  (parseTraced s).result

theorem parse_eq_ok_iff {s : String} {g : Grammar} :
    parse s = .ok g ↔
      ∃ ls, (readLines 1 (lines s.toList)).result = .ok ls ∧ ofLines ls = g := by
  unfold parse parseTraced
  rw [Traced.result_bind]
  cases (readLines 1 (lines s.toList)).result <;> simp [Bind.bind, Except.bind]

end Grammar

end LeftRecursion
