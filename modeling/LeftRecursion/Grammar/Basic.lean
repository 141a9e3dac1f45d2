import LeftRecursion.Body

/-!
# Grammars

A grammar lists its non-terminals in the order in which they were first named, each with its
alternatives. What a grammar says of a non-terminal is changed through `Grammar.modify`, which never
removes or reorders a name.
-/

namespace LeftRecursion

structure Rule where
  left : Char
  alternatives : List Body
  deriving DecidableEq

namespace Rule

/-- Changes the alternatives of `a` by `f`; a name not yet there comes to the end. -/
def modify (a : Char) (f : List Body → List Body) : List Rule → List Rule
  | [] => [⟨a, f []⟩]
  | r :: rs => if r.left = a then ⟨a, f r.alternatives⟩ :: rs else r :: modify a f rs

theorem map_left_modify (a : Char) (f : List Body → List Body) (rs : List Rule) :
    (modify a f rs).map left =
      if a ∈ rs.map left then rs.map left else rs.map left ++ [a] := by
  induction rs with
  | nil => rfl
  | cons r rs ih => grind [modify]

end Rule

/-- A grammar: no two rules have the same left side. -/
structure Grammar where
  rules : List Rule
  nodup : (rules.map Rule.left).Nodup

namespace Grammar

instance : EmptyCollection Grammar := ⟨⟨[], List.nodup_nil⟩⟩

instance : Inhabited Grammar := ⟨∅⟩

@[ext] theorem ext {g h : Grammar} (rules : g.rules = h.rules) : g = h := by
  cases g; cases h; simp_all

instance : DecidableEq Grammar := fun g h =>
  decidable_of_iff (g.rules = h.rules) Grammar.ext_iff.symm

def nonTerminals (g : Grammar) : List Char :=
  g.rules.map Rule.left

/-- `a ∈ g` says that `g` declares `a`. -/
instance : Membership Char Grammar := ⟨fun g a => a ∈ g.nonTerminals⟩

theorem mem_iff {g : Grammar} {a : Char} : a ∈ g ↔ a ∈ g.nonTerminals := Iff.rfl

instance (a : Char) (g : Grammar) : Decidable (a ∈ g) :=
  inferInstanceAs (Decidable (a ∈ g.nonTerminals))

/-- The alternatives of `a`, none for a name that is not declared. -/
def alternatives (g : Grammar) (a : Char) : List Body :=
  ((g.rules.find? (·.left = a)).map Rule.alternatives).getD []

def isEmpty (g : Grammar) : Bool :=
  g.rules.isEmpty

def modify (g : Grammar) (a : Char) (f : List Body → List Body) : Grammar where
  rules := Rule.modify a f g.rules
  nodup := by
    rw [Rule.map_left_modify]
    have := g.nodup
    split <;> grind

def addAlternatives (g : Grammar) (a : Char) (ps : List Body) : Grammar :=
  g.modify a (· ++ ps)

def setAlternatives (g : Grammar) (a : Char) (ps : List Body) : Grammar :=
  g.modify a fun _ => ps

end Grammar

end LeftRecursion
