import LeftRecursion.Text.Characters

/-!
# Bodies of productions

A body is what a non-terminal may stand for: one of its alternatives, a list of symbols. A name is
one character, so a non-terminal and a terminal may be written alike. The letter for the empty word
means the empty word only where it is the whole body.
-/

namespace LeftRecursion

/-- A name is one character, so a non-terminal and a terminal may be written alike. -/
inductive Symbol where
  | nonTerminal (name : Char)
  | terminal (char : Char)
  /-- The empty word. -/
  | epsilon
  deriving DecidableEq

namespace Symbol

def epsilonChar : Char := 'e'

def toChar : Symbol → Char
  | nonTerminal name => name
  | terminal char => char
  | epsilon => epsilonChar

@[simp] theorem toChar_nonTerminal (a : Char) : (nonTerminal a).toChar = a := rfl

@[simp] theorem toChar_terminal (c : Char) : (terminal c).toChar = c := rfl

@[simp] theorem toChar_epsilon : epsilon.toChar = epsilonChar := rfl

/-- A written character other than the lone letter for the empty word. -/
def ofChar (isNonTerminal : Char → Bool) (c : Char) : Symbol :=
  if isNonTerminal c then nonTerminal c else terminal c

@[simp] theorem toChar_ofChar (isNonTerminal : Char → Bool) (c : Char) :
    (ofChar isNonTerminal c).toChar = c := by
  unfold ofChar; split <;> rfl

@[simp] theorem ofChar_eq_nonTerminal_iff {isNonTerminal : Char → Bool} {c a : Char} :
    ofChar isNonTerminal c = nonTerminal a ↔ isNonTerminal c ∧ c = a := by
  unfold ofChar; split <;> simp_all

@[simp] theorem ofChar_eq_terminal_iff {isNonTerminal : Char → Bool} {c a : Char} :
    ofChar isNonTerminal c = terminal a ↔ ¬isNonTerminal c ∧ c = a := by
  unfold ofChar; split <;> simp_all

@[simp] theorem ofChar_ne_epsilon (isNonTerminal : Char → Bool) (c : Char) :
    ofChar isNonTerminal c ≠ epsilon := by
  unfold ofChar; split <;> simp

def isNonTerminal (s : Symbol) (a : Char) : Bool :=
  s = nonTerminal a

@[simp] theorem isNonTerminal_iff {s : Symbol} {a : Char} :
    s.isNonTerminal a ↔ s = nonTerminal a := by
  simp [isNonTerminal]

end Symbol

/-- One alternative. The empty list and the list of one `Symbol.epsilon` are different bodies, both
for the empty word. -/
abbrev Body := List Symbol

namespace Body

def epsilon : Body := [.epsilon]

/-- A written body: every character is a symbol, unless the body is the letter for the empty word
and nothing else. -/
def ofChars (isNonTerminal : Char → Bool) (cs : List Char) : Body :=
  if cs = [Symbol.epsilonChar] then epsilon else cs.map (Symbol.ofChar isNonTerminal)

def ofString (s : String) : Body :=
  ofChars Text.isUppercase s.toList

def toChars (p : Body) : List Char :=
  p.map Symbol.toChar

protected def toString (p : Body) : String :=
  String.ofList p.toChars

@[simp] theorem toChars_ofChars (isNonTerminal : Char → Bool) (cs : List Char) :
    (ofChars isNonTerminal cs).toChars = cs := by
  unfold ofChars toChars
  split
  · simp_all [epsilon]
  · simp [Function.comp_def]

@[simp] theorem ofChars_eq_nil_iff {isNonTerminal : Char → Bool} {cs : List Char} :
    ofChars isNonTerminal cs = [] ↔ cs = [] := by
  unfold ofChars
  split <;> simp_all [epsilon]

def StartsWith (p : Body) (a : Char) : Prop :=
  p.head? = some (.nonTerminal a)

instance (p : Body) (a : Char) : Decidable (p.StartsWith a) :=
  inferInstanceAs (Decidable (p.head? = some (.nonTerminal a)))

@[simp] theorem not_startsWith_nil (a : Char) : ¬StartsWith [] a := by
  simp [StartsWith]

@[simp] theorem startsWith_cons {s : Symbol} {p : Body} {a : Char} :
    StartsWith (s :: p) a ↔ s = .nonTerminal a := by
  simp [StartsWith]

theorem startsWith_iff_cons_tail {p : Body} {a : Char} :
    p.StartsWith a ↔ p = .nonTerminal a :: p.tail := by
  cases p <;> simp

theorem startsWith_append {p q : Body} {a : Char} (hp : p ≠ []) :
    StartsWith (p ++ q) a ↔ p.StartsWith a := by
  cases p <;> simp_all

/-- A leading `a` gives way to each of `ds` in turn; a body that starts otherwise stays. -/
def expandLeading (a : Char) (ds : List Body) (p : Body) : List Body :=
  if p.StartsWith a then ds.map (· ++ p.tail) else [p]

theorem expandLeading_of_startsWith {a : Char} {ds : List Body} {p : Body}
    (h : p.StartsWith a) : p.expandLeading a ds = ds.map (· ++ p.tail) := by
  simp [expandLeading, h]

theorem expandLeading_of_not_startsWith {a : Char} {ds : List Body} {p : Body}
    (h : ¬p.StartsWith a) : p.expandLeading a ds = [p] := by
  simp [expandLeading, h]

theorem mem_expandLeading {a : Char} {ds : List Body} {p q : Body} :
    q ∈ p.expandLeading a ds ↔
      p.StartsWith a ∧ (∃ d ∈ ds, q = d ++ p.tail) ∨ ¬p.StartsWith a ∧ q = p := by
  unfold expandLeading
  split <;> simp_all [eq_comm]

end Body

end LeftRecursion
