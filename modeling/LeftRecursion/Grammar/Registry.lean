import LeftRecursion.Elimination
import LeftRecursion.Reading

/-!
# Grammars in two containers

A registry keeps the names of a grammar in a list and their alternatives in a table, and nothing but
its operations keeps the two in step. All of them go through `register`, which puts a new name into
both. Reading and elimination are done here on the two containers themselves, step by step as they
are done on grammars.
-/

namespace LeftRecursion

@[ext]
structure Registry where
  order : List Char
  table : Char → Option (List Body)

namespace Registry

instance : EmptyCollection Registry := ⟨⟨[], fun _ => none⟩⟩

/-- Whether `a` is a key of the table. The list is not asked. -/
def contains (r : Registry) (a : Char) : Bool :=
  (r.table a).isSome

def alternatives (r : Registry) (a : Char) : List Body :=
  (r.table a).getD []

def rules (r : Registry) : List Rule :=
  r.order.map fun a => ⟨a, r.alternatives a⟩

def register (r : Registry) (a : Char) : Registry :=
  if r.contains a then r
  else ⟨r.order ++ [a], fun b => if b = a then some [] else r.table b⟩

def modify (r : Registry) (a : Char) (f : List Body → List Body) : Registry where
  order := (r.register a).order
  table b := if b = a then ((r.register a).table a).map f else (r.register a).table b

def addAlternatives (r : Registry) (a : Char) (ps : List Body) : Registry :=
  r.modify a (· ++ ps)

def setAlternatives (r : Registry) (a : Char) (ps : List Body) : Registry :=
  r.modify a fun _ => ps

def addLines (isNonTerminal : Char → Bool) (r : Registry) (ls : List Line) : Registry :=
  ls.foldl (fun r l => r.addAlternatives l.name (l.alternatives isNonTerminal)) r

def ofLines (ls : List Line) : Registry :=
  addLines (fun c => Text.isUppercase c || ls.any (·.name = c)) ∅ ls

def parse (s : String) : Except Failure Registry :=
  (readLines 1 (Text.lines s.toList)).result.map ofLines

def substitute (r : Registry) (a b : Char) : Registry :=
  r.setAlternatives a ((r.alternatives a).flatMap (Body.expandLeading b (r.alternatives b)))

def expose (r : Registry) (a : Char) (bs : List Char) : Registry :=
  bs.foldl (·.substitute a) r

def recursive (r : Registry) (a : Char) : List Body :=
  (r.alternatives a).filter (·.StartsWith a)

def others (r : Registry) (a : Char) : List Body :=
  (r.alternatives a).filter (¬ ·.StartsWith a)

def freshName (r : Registry) : Except Failure Char :=
  match Grammar.helperNames.find? (!r.contains ·) with
  | some a => .ok a
  | none => .error .namesExhausted

def splitInto (r : Registry) (a helper : Char) : Registry :=
  (r.setAlternatives a ((r.others a).map (· ++ [.nonTerminal helper]))).addAlternatives helper
    ((r.recursive a).map (·.tail ++ [.nonTerminal helper]) ++ [Body.epsilon])

def split (r : Registry) (a : Char) : Except Failure Registry :=
  if r.recursive a = [] then .ok r else r.freshName.map (r.splitInto a)

def eliminateFrom (r : Registry) (earlier : List Char) : List Char → Except Failure Registry
  | [] => .ok r
  | a :: remaining => do
    let q ← (r.expose a earlier).split a
    q.eliminateFrom (earlier ++ [a]) remaining

/-- The names to treat are a copy of the list as it is at the start. -/
def eliminate (r : Registry) : Except Failure Registry :=
  r.eliminateFrom [] r.order

end Registry

inductive Operation where
  | add (a : Char) (ps : List Body)
  | set (a : Char) (ps : List Body)
  | eliminate
  /-- Goes on with a copy. -/
  | copy

def Registry.apply (r : Registry) : Operation → Except Failure Registry
  | .add a ps => .ok (r.addAlternatives a ps)
  | .set a ps => .ok (r.setAlternatives a ps)
  | .eliminate => r.eliminate
  | .copy => .ok r

/-- The registry after some operations, all of which succeed. -/
def Registry.perform (r : Registry) (ops : List Operation) : Except Failure Registry :=
  ops.foldlM Registry.apply r

namespace Grammar

def alternatives? (g : Grammar) (a : Char) : Option (List Body) :=
  (g.rules.find? (·.left = a)).map Rule.alternatives

/-- The two containers that a grammar stands for. -/
def registry (g : Grammar) : Registry :=
  ⟨g.nonTerminals, g.alternatives?⟩

def apply (g : Grammar) : Operation → Except Failure Grammar
  | .add a ps => .ok (g.addAlternatives a ps)
  | .set a ps => .ok (g.setAlternatives a ps)
  | .eliminate => g.eliminate
  | .copy => .ok g

def perform (g : Grammar) (ops : List Operation) : Except Failure Grammar :=
  ops.foldlM apply g

end Grammar

end LeftRecursion
