import LeftRecursion.Trace

/-!
# The log

A run tells a log what it loses and changes on the way and how far it has come. The log decides which
entries it writes and what time stands before them. It writes each on one line of its own, and the
line begins with its time or its level.
-/

namespace LeftRecursion

/-- The characters of the grammar that an event shows. -/
def Event.characters : Event → List Char
  | longLeftSide _ name rest => name :: rest
  | substituted a b _ => [a, b]
  | split a helper _ _ => [a, helper]
  | emptied a => [a]

inductive LogEntry where
  | event (e : Event)
  /-- A grammar with `names` non-terminals has been read. -/
  | parsed (names : Nat)
  /-- Elimination has added `names` non-terminals. -/
  | eliminated (names : Nat)
  deriving DecidableEq

namespace LogEntry

def message : LogEntry → String
  | event e => e.message
  | parsed _ => "grammar parsed"
  | eliminated _ => "left recursion eliminated"

def level : LogEntry → String
  | event e =>
    match e.level with
    | .debug => "DEBUG"
    | .warn => " WARN"
  | parsed _ => " INFO"
  | eliminated _ => " INFO"

def isWarning : LogEntry → Bool
  | event e => e.level = .warn
  | parsed _ => false
  | eliminated _ => false

def target : LogEntry → String
  | event (.longLeftSide ..) => "left_recursion_eliminator::grammar::parse"
  | event _ => "left_recursion_eliminator::grammar::eliminate_left_recursion"
  | parsed _ => "left_recursion_eliminator"
  | eliminated _ => "left_recursion_eliminator"

def number (n : Nat) : List Char :=
  (toString n).toList

def fields : LogEntry → List (String × List Char)
  | event (.longLeftSide line name rest) =>
    [("line", number line), ("left", Text.quoted (name :: rest))]
  | event (.substituted a b count) => [("ai", [a]), ("aj", [b]), ("substituted", number count)]
  | event (.split a helper recursive others) =>
    [("a", [a]), ("a_prime", [helper]), ("alphas", number recursive), ("betas", number others)]
  | event (.emptied a) => [("a", [a])]
  | parsed names => [("non_terminals", number names)]
  | eliminated names => [("added", number names)]

def characters : LogEntry → List Char
  | event e => e.characters
  | parsed _ => []
  | eliminated _ => []

def line (e : LogEntry) : List Char :=
  e.level.toList ++ ' ' :: e.target.toList ++ ": ".toList ++ e.message.toList ++
    e.fields.flatMap fun f => ' ' :: f.1.toList ++ '=' :: f.2

end LogEntry

/-- What a log makes of its entries, the first of which has number 0. A line begins with no small
letter, and nothing but a character that the entry shows can break it. -/
structure Log where
  line? : Nat → LogEntry → Option (List Char)
  start : ∀ {n e l}, line? n e = some l → ∀ c ∈ l.head?, ¬c.isLower
  unbroken : ∀ {n e l}, line? n e = some l → '\n' ∈ l → '\n' ∈ e.characters

namespace Log

def writeFrom (log : Log) (n : Nat) : List LogEntry → List Char
  | [] => []
  | e :: es => (log.line? n e).elim [] (· ++ ['\n']) ++ log.writeFrom (n + 1) es

def write (log : Log) (es : List LogEntry) : List Char :=
  log.writeFrom 0 es

end Log

end LeftRecursion
