import LeftRecursion.Proofs.Reading.Pieces
import LeftRecursion.Reading

/-!
# The lines of a grammar

Reading succeeds exactly if every line that is not blank is a production, and the grammar that is
read collects the alternatives of these lines, classified by all names they declare.
-/

namespace LeftRecursion

open Text

variable {cs : List Char} {css : List (List Char)} {l : Line} {ls : List Line} {n : Nat}

theorem Line.ofChars?_eq_some_iff :
    Line.ofChars? cs = some l ↔
      ∃ left, splitArrows cs = [left, l.right] ∧ trim left = l.name :: l.rest := by
  unfold Line.ofChars?
  constructor
  · intro h
    split at h
    · next left right split =>
      split at h
      · cases h
      · next name rest first =>
        cases h
        exact ⟨left, split, first⟩
    · cases h
  · rintro ⟨left, split, first⟩
    rw [split]
    simp [first]

theorem readLines_cons_of_blank (blank : cs.all isBlank) :
    readLines n (cs :: css) = readLines (n + 1) css := by
  rw [readLines, if_pos blank]

theorem result_readLines_cons_of_none (visible : ¬cs.all isBlank)
    (none : Line.ofChars? cs = none) :
    (readLines n (cs :: css)).result =
      .error (.malformedLine n (String.ofList (trim cs))) := by
  rw [readLines, if_neg visible, none]
  rfl

theorem result_readLines_cons_of_some (visible : ¬cs.all isBlank)
    (some : Line.ofChars? cs = some l) :
    (readLines n (cs :: css)).result = (readLines (n + 1) css).result.map (l :: ·) := by
  have last : (do return l :: (← readLines (n + 1) css) : Traced (List Line)).result =
      (readLines (n + 1) css).result.map (l :: ·) := by
    rw [Traced.result_bind]
    cases (readLines (n + 1) css).result <;> rfl
  rw [readLines, if_neg visible, some]
  by_cases long : l.rest = []
  · simpa [long] using last
  · simpa [long] using last

/-- Every line that is not blank is a production, and these are `ls`. -/
theorem result_readLines_eq_ok_iff :
    (readLines n css).result = .ok ls ↔
      (css.filter (!·.all isBlank)).map Line.ofChars? = ls.map some := by
  induction css generalizing n ls with
  | nil => cases ls <;> simp [readLines]
  | cons cs css ih =>
    by_cases blank : cs.all isBlank
    · rw [readLines_cons_of_blank blank, ih, List.filter_cons_of_neg (by simpa using blank)]
    rw [List.filter_cons_of_pos (by simpa using blank), List.map_cons]
    cases line : Line.ofChars? cs with
    | none =>
      rw [result_readLines_cons_of_none blank line]
      cases ls <;> simp
    | some l =>
      rw [result_readLines_cons_of_some blank line]
      constructor
      · intro h
        obtain ⟨ls', later, rfl⟩ := exists_of_map_eq_ok h
        rw [ih.1 later, List.map_cons]
      · intro h
        cases ls with
        | nil => cases h
        | cons l' ls =>
          rw [List.map_cons, List.cons.injEq, Option.some.injEq] at h
          obtain ⟨rfl, h⟩ := h
          rw [ih.2 h]
          rfl

namespace Grammar

variable {g : Grammar} {a c : Char} {isName : Char → Bool}

theorem parse_eq_ok_iff_map {s : String} :
    parse s = .ok g ↔
      ∃ ls : List Line, ((lines s.toList).filter (!·.all isBlank)).map Line.ofChars? = ls.map some ∧
        ofLines ls = g := by
  simp only [parse_eq_ok_iff, result_readLines_eq_ok_iff]

theorem addLines_cons : g.addLines isName (l :: ls) =
    (g.addAlternatives l.name (l.alternatives isName)).addLines isName ls := rfl

theorem mem_addLines : c ∈ g.addLines isName ls ↔ c ∈ g ∨ ∃ l ∈ ls, l.name = c := by
  induction ls generalizing g with
  | nil => simp [addLines]
  | cons l ls ih =>
    rw [addLines_cons, ih, mem_addAlternatives, List.exists_mem_cons_iff, eq_comm,
      or_comm (a := _ = _), or_assoc]

/-- Lines for the same name add up, in their order. -/
theorem alternatives_addLines :
    (g.addLines isName ls).alternatives a =
      g.alternatives a ++
        (ls.filter (·.name = a)).flatMap (Line.alternatives isName) := by
  induction ls generalizing g with
  | nil => simp [addLines]
  | cons l ls ih =>
    rw [addLines_cons, ih, alternatives_addAlternatives]
    by_cases here : l.name = a
    · simp [here]
    · simp [here, Ne.symm here]

/-- Lines for new and different names become rules. -/
theorem rules_addLines (fresh : (g.nonTerminals ++ ls.map Line.name).Nodup) :
    (g.addLines isName ls).rules =
      g.rules ++ ls.map fun l => ⟨l.name, l.alternatives isName⟩ := by
  induction ls generalizing g with
  | nil => simp [addLines]
  | cons l ls ih =>
    have new : l.name ∉ g := fun here =>
      (List.nodup_append.1 fresh).2.2 _ here _ (List.mem_cons_self ..) rfl
    have added : (g.addAlternatives l.name (l.alternatives isName)).rules =
        g.rules ++ [⟨l.name, l.alternatives isName⟩] := Rule.modify_of_not_mem new _
    have fresh' : ((g.addAlternatives l.name (l.alternatives isName)).nonTerminals ++
        ls.map Line.name).Nodup := by
      rw [nonTerminals_addAlternatives, if_neg new]
      simpa using fresh
    rw [addLines_cons, ih fresh', added, List.map_cons, List.append_assoc, List.singleton_append]

theorem mem_ofLines : c ∈ ofLines ls ↔ ∃ l ∈ ls, l.name = c := by
  simp [ofLines, mem_addLines]

/-- The characters that stand for non-terminals: the upper-case ones and the declared names. -/
def isNonTerminal (g : Grammar) (c : Char) : Bool :=
  isUppercase c || decide (c ∈ g)

theorem ofLines_eq_addLines : ofLines ls = addLines (ofLines ls).isNonTerminal ∅ ls := by
  have same : (ofLines ls).isNonTerminal = fun c => isUppercase c || ls.any (·.name = c) := by
    funext c
    rw [Bool.eq_iff_iff]
    simp [isNonTerminal, mem_ofLines]
  rw [same, ofLines]

end Grammar

end LeftRecursion
