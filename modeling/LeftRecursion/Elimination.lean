import LeftRecursion.Grammar.Lemmas
import LeftRecursion.Trace

/-!
# Elimination of left recursion

The names are treated in the order of the grammar. Each first has every earlier name replaced in
leading position by the alternatives of that name, so that it can only lead back to itself at once;
then it is split: what followed a leading `a` moves to a helper, and the other alternatives of `a`
hand over to the helper.
-/

namespace LeftRecursion

namespace Grammar

/-- The names tried for a helper, in order. `A` and `S` are not among them: they usually name the
start symbol. -/
def helperNames : List Char :=
  ['Z', 'Y', 'X', 'W', 'V', 'U', 'T', 'R', 'Q', 'P', 'O', 'N', 'M', 'L', 'K', 'J', 'I', 'H', 'G',
    'F', 'E', 'D', 'C', 'B']

theorem nodup_helperNames : helperNames.Nodup := by decide

/-- The first helper name that the grammar does not declare. -/
def freshName (g : Grammar) : Except Failure Char :=
  match helperNames.find? (· ∉ g) with
  | some a => .ok a
  | none => .error .namesExhausted

theorem mem_helperNames_of_freshName {g : Grammar} {a : Char} (h : g.freshName = .ok a) :
    a ∈ helperNames := by
  unfold freshName at h
  split at h
  · next hb => cases h; exact List.mem_of_find?_eq_some hb
  · cases h

theorem not_mem_of_freshName {g : Grammar} {a : Char} (h : g.freshName = .ok a) : a ∉ g := by
  unfold freshName at h
  split at h
  · next hb => cases h; simpa using List.find?_some hb
  · cases h

theorem freshName_eq_error_iff {g : Grammar} {e : Failure} :
    g.freshName = .error e ↔ e = .namesExhausted ∧ ∀ a ∈ helperNames, a ∈ g := by
  unfold freshName
  cases h : helperNames.find? (· ∉ g) with
  | some a =>
    have taken : a ∉ g := by simpa using List.find?_some h
    simpa using fun _ => ⟨a, List.mem_of_find?_eq_some h, taken⟩
  | none => simpa [eq_comm] using fun _ => by simpa using h

/-- In the alternatives of `a`, a leading `b` gives way to the alternatives of `b`. -/
def substitute (g : Grammar) (a b : Char) : Grammar :=
  g.setAlternatives a ((g.alternatives a).flatMap (Body.expandLeading b (g.alternatives b)))

theorem alternatives_substitute (g : Grammar) (a b c : Char) :
    (g.substitute a b).alternatives c =
      if c = a then (g.alternatives a).flatMap (Body.expandLeading b (g.alternatives b))
      else g.alternatives c :=
  alternatives_setAlternatives _ _ _ _

theorem nonTerminals_substitute {g : Grammar} {a : Char} (h : a ∈ g) (b : Char) :
    (g.substitute a b).nonTerminals = g.nonTerminals :=
  nonTerminals_modify_of_mem h _

def substituteTraced (g : Grammar) (a b : Char) : Traced Grammar := do
  let count := (g.alternatives a).countP (·.StartsWith b)
  if count > 0 then
    Traced.tell (.substituted a b count)
  return g.substitute a b

@[simp] theorem result_substituteTraced (g : Grammar) (a b : Char) :
    (g.substituteTraced a b).result = .ok (g.substitute a b) := by
  unfold substituteTraced
  dsimp only
  split <;> rfl

def recursive (g : Grammar) (a : Char) : List Body :=
  (g.alternatives a).filter (·.StartsWith a)

def others (g : Grammar) (a : Char) : List Body :=
  (g.alternatives a).filter (¬ ·.StartsWith a)

/-- The alternatives of `a` are shared out: its other alternatives hand over to `helper`, and
`helper` carries on with what followed the leading `a` of a recursive one, again and again until it
ends with the empty word. -/
def splitInto (g : Grammar) (a helper : Char) : Grammar :=
  (g.setAlternatives a ((g.others a).map (· ++ [.nonTerminal helper]))).addAlternatives helper
    ((g.recursive a).map (·.tail ++ [.nonTerminal helper]) ++ [Body.epsilon])

/-- Splits `a` into itself and a fresh helper, if any of its alternatives starts with `a`. -/
def split (g : Grammar) (a : Char) : Traced Grammar :=
  if g.recursive a = [] then
    return g
  else match g.freshName with
    | .error e => Traced.fail e
    | .ok helper => do
      Traced.tell (.split a helper (g.recursive a).length (g.others a).length)
      if g.others a = [] then
        Traced.tell (.emptied a)
      return g.splitInto a helper

theorem nonTerminals_splitInto {g : Grammar} {a helper : Char} (ha : a ∈ g) (hh : helper ∉ g) :
    (g.splitInto a helper).nonTerminals = g.nonTerminals ++ [helper] := by
  rw [splitInto, nonTerminals_addAlternatives, if_neg, nonTerminals_setAlternatives, if_pos ha]
  rw [mem_setAlternatives]
  rintro (rfl | h) <;> exact hh (by assumption)

theorem alternatives_splitInto {g : Grammar} {a helper : Char} (ha : a ∈ g) (hh : helper ∉ g)
    (b : Char) :
    (g.splitInto a helper).alternatives b =
      if b = helper then (g.recursive a).map (·.tail ++ [.nonTerminal helper]) ++ [Body.epsilon]
      else if b = a then (g.others a).map (· ++ [.nonTerminal helper])
      else g.alternatives b := by
  have distinct : helper ≠ a := by rintro rfl; exact hh ha
  rw [splitInto, alternatives_addAlternatives]
  split
  · rw [alternatives_setAlternatives, if_neg distinct, alternatives_of_not_mem hh, List.nil_append]
  · rw [alternatives_setAlternatives]

theorem split_of_recursive_eq_nil {g : Grammar} {a : Char} (h : g.recursive a = []) :
    g.split a = pure g := by
  rw [split, if_pos h]

theorem result_split (g : Grammar) (a : Char) :
    (g.split a).result =
      if g.recursive a = [] then .ok g else g.freshName.map (g.splitInto a) := by
  unfold split
  split
  · rfl
  · cases g.freshName with
    | error e => rfl
    | ok helper => dsimp only; split <;> rfl

def substituteAll (g : Grammar) (a : Char) : List Char → Traced Grammar
  | [] => pure g
  | b :: bs => do (← g.substituteTraced a b).substituteAll a bs

/-- Treats the names `remaining` in turn when `earlier` have been treated. -/
def eliminateFrom (g : Grammar) (earlier : List Char) : List Char → Traced Grammar
  | [] => pure g
  | a :: remaining => do
    let g ← g.substituteAll a earlier
    let g ← g.split a
    g.eliminateFrom (earlier ++ [a]) remaining

def eliminateTraced (g : Grammar) : Traced Grammar :=
  g.eliminateFrom [] g.nonTerminals

/-- The grammar with every name treated, in which the helpers come last. -/
def eliminate (g : Grammar) : Except Failure Grammar :=
  g.eliminateTraced.result

def expose (g : Grammar) (a : Char) (bs : List Char) : Grammar :=
  bs.foldl (·.substitute a) g

@[simp] theorem expose_nil (g : Grammar) (a : Char) : g.expose a [] = g := rfl

theorem expose_cons (g : Grammar) (a b : Char) (bs : List Char) :
    g.expose a (b :: bs) = (g.substitute a b).expose a bs := rfl

theorem expose_concat (g : Grammar) (a b : Char) (bs : List Char) :
    g.expose a (bs ++ [b]) = (g.expose a bs).substitute a b := by
  simp [expose]

@[simp] theorem result_substituteAll (g : Grammar) (a : Char) (bs : List Char) :
    (g.substituteAll a bs).result = .ok (g.expose a bs) := by
  induction bs generalizing g with
  | nil => rfl
  | cons b bs ih =>
    rw [substituteAll, Traced.result_bind, result_substituteTraced]
    exact ih _

@[simp] theorem result_eliminateFrom_nil (g : Grammar) (earlier : List Char) :
    (g.eliminateFrom earlier []).result = .ok g := rfl

theorem result_eliminateFrom_cons (g : Grammar) (earlier : List Char) (a : Char)
    (remaining : List Char) :
    (g.eliminateFrom earlier (a :: remaining)).result =
      ((g.expose a earlier).split a).result >>= fun h =>
        (h.eliminateFrom (earlier ++ [a]) remaining).result := by
  rw [eliminateFrom, Traced.result_bind, result_substituteAll]
  exact Traced.result_bind _ _

end Grammar

end LeftRecursion
