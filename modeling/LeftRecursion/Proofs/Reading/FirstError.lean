import LeftRecursion.Proofs.Reading.Lines

/-!
# The first line that is no production

Reading fails exactly if some line is malformed, and what it reports is the first such line. Two
arrows never share a character, so a line holds as many arrows as there are places where one starts,
and these are the cuts that reading makes (`length_splitArrows`).
-/

namespace LeftRecursion

open Text

variable {cs ds left right : List Char} {css : List (List Char)} {c : Char} {n : Nat} {e : Failure}

def arrowCount (cs : List Char) : Nat :=
  cs.tails.countP (arrow <+: ·)

@[simp] theorem arrowCount_nil : arrowCount [] = 0 := rfl

theorem arrowCount_cons (c : Char) (cs : List Char) :
    arrowCount (c :: cs) = arrowCount cs + if arrow <+: c :: cs then 1 else 0 := by
  simp [arrowCount, List.countP_cons]

theorem arrowCount_cons_of_absent (absent : ¬arrow <+: c :: cs) :
    arrowCount (c :: cs) = arrowCount cs := by
  rw [arrowCount_cons, if_neg absent, Nat.add_zero]

@[simp] theorem arrowCount_arrow_append (cs : List Char) :
    arrowCount (arrow ++ cs) = arrowCount cs + 1 := by
  have tip : ¬arrow <+: '>' :: cs := fun here => absurd (arrow_prefix_cons_iff.1 here).1 (by decide)
  have dash : arrow <+: '-' :: '>' :: cs := List.prefix_append arrow cs
  calc arrowCount (arrow ++ cs)
      = arrowCount ('>' :: cs) + 1 := by rw [arrow, List.cons_append, List.singleton_append,
          arrowCount_cons, if_pos dash]
    _ = arrowCount cs + 1 := by rw [arrowCount_cons_of_absent tip]

theorem arrowCount_eq_zero_iff : arrowCount cs = 0 ↔ ¬arrow <:+: cs := by
  induction cs with
  | nil => simp
  | cons c cs ih =>
    rw [arrowCount_cons, List.infix_cons_iff, not_or, Nat.add_eq_zero_iff, ih, and_comm]
    simp

theorem arrowCount_append_arrow (left right : List Char) :
    arrowCount (left ++ arrow ++ right) = arrowCount left + (arrowCount right + 1) := by
  induction left with
  | nil => simp
  | cons c left ih =>
    have same : arrow <+: c :: (left ++ arrow ++ right) ↔ arrow <+: c :: left := by
      constructor
      · intro here
        by_contra absent
        have further : ¬arrow <+: c :: (left ++ '-' :: '>' :: right) :=
          not_arrow_prefix_append absent (by decide)
        exact further (by simpa [arrow] using here)
      · intro here
        exact here.trans (by simp [List.cons_prefix_cons])
    rw [List.cons_append, List.cons_append, arrowCount_cons, arrowCount_cons, ih]
    simp only [same]
    omega

theorem length_splitArrows (cs : List Char) : (splitArrows cs).length = arrowCount cs + 1 := by
  fun_induction splitArrows cs with
  | case1 => rfl
  | case2 cs ih => rw [List.length_cons, ih, ← arrowCount_arrow_append cs]; rfl
  | case3 c cs other ih =>
    have absent : ¬arrow <+: c :: cs := fun here => by
      obtain ⟨dash, rest, tip⟩ := arrow_prefix_cons_iff.1 here
      exact other rest dash tip
    rw [List.length_modifyHead, ih, arrowCount_cons_of_absent absent]

theorem arrowCount_eq_one_iff :
    arrowCount cs = 1 ↔ ∃ left right, splitArrows cs = [left, right] := by
  rw [← List.length_eq_two, length_splitArrows]
  omega

/-- A line with one arrow is cut there. -/
theorem splitArrows_eq_pair (split : cs = left ++ arrow ++ right) (one : arrowCount cs = 1) :
    splitArrows cs = [left, right] := by
  rw [split, arrowCount_append_arrow] at one
  exact splitArrows_eq_pair_iff.2
    ⟨split, arrowCount_eq_zero_iff.1 (by omega), arrowCount_eq_zero_iff.1 (by omega)⟩

/-- The line is not blank, and it does not hold exactly one arrow, or it holds nothing but blanks
before its arrow. -/
def Malformed (cs : List Char) : Prop :=
  ¬cs.all isBlank ∧
    (arrowCount cs ≠ 1 ∨ ∃ left right, cs = left ++ arrow ++ right ∧ left.all isBlank)

theorem not_malformed_of_blank (blank : cs.all isBlank) : ¬Malformed cs := fun malformed =>
  malformed.1 blank

/-- A line that is not blank is either malformed or read. -/
theorem ofChars?_eq_none_iff (visible : ¬cs.all isBlank) :
    Line.ofChars? cs = none ↔ Malformed cs := by
  rw [Malformed, and_iff_right visible]
  by_cases one : arrowCount cs = 1
  · obtain ⟨left, right, split⟩ := arrowCount_eq_one_iff.1 one
    have cut (left' right' : List Char) (h : cs = left' ++ arrow ++ right') : left' = left := by
      have split' := splitArrows_eq_pair h one
      rw [split] at split'
      cases split'
      rfl
    have unread : Line.ofChars? cs = none ↔ trim left = [] := by
      rw [Line.ofChars?, split]
      cases first : trim left <;> simp [first]
    rw [unread, trim_eq_nil_iff]
    constructor
    · intro blank
      exact .inr ⟨left, right, (splitArrows_eq_pair_iff.1 split).1, blank⟩
    · rintro (several | ⟨left', right', h, blank⟩)
      · exact absurd one several
      · exact cut left' right' h ▸ blank
  · refine iff_of_true ?_ (.inl one)
    cases line : Line.ofChars? cs with
    | none => rfl
    | some l =>
      obtain ⟨left, split, _⟩ := Line.ofChars?_eq_some_iff.1 line
      exact absurd (arrowCount_eq_one_iff.2 ⟨left, l.right, split⟩) one

instance (cs : List Char) : Decidable (Malformed cs) :=
  if visible : cs.all isBlank then isFalse (not_malformed_of_blank visible)
  else decidable_of_iff (Line.ofChars? cs = none) (ofChars?_eq_none_iff visible)

/-- `e` reports the first malformed one of some lines, of which the first has number `n`. -/
def ReportsFirst (n : Nat) (css : List (List Char)) (e : Failure) : Prop :=
  ∃ before cs behind, css = before ++ cs :: behind ∧ (∀ ds ∈ before, ¬Malformed ds) ∧
    Malformed cs ∧ e = .malformedLine (n + before.length) (String.ofList (trim cs))

theorem not_reportsFirst_nil : ¬ReportsFirst n [] e := by
  rintro ⟨before, cs, behind, parts, _⟩
  cases before <;> cases parts

theorem reportsFirst_cons_of_malformed (malformed : Malformed cs) :
    ReportsFirst n (cs :: css) e ↔ e = .malformedLine n (String.ofList (trim cs)) := by
  constructor
  · rintro ⟨before, ds, behind, parts, fine, _, rfl⟩
    cases before with
    | nil => cases parts; rfl
    | cons first before =>
      cases parts
      exact absurd malformed (fine cs (List.mem_cons_self ..))
  · rintro rfl
    exact ⟨[], cs, css, rfl, by simp, malformed, rfl⟩

theorem reportsFirst_cons_of_not_malformed (fine : ¬Malformed cs) :
    ReportsFirst n (cs :: css) e ↔ ReportsFirst (n + 1) css e := by
  constructor
  · rintro ⟨before, ds, behind, parts, fine', malformed, rfl⟩
    cases before with
    | nil => cases parts; exact absurd malformed fine
    | cons first before =>
      cases parts
      refine ⟨before, ds, behind, rfl, (List.forall_mem_cons.1 fine').2, malformed, ?_⟩
      rw [List.length_cons, Nat.add_right_comm, Nat.add_assoc]
  · rintro ⟨before, ds, behind, rfl, fine', malformed, rfl⟩
    refine ⟨cs :: before, ds, behind, rfl, List.forall_mem_cons.2 ⟨fine, fine'⟩, malformed, ?_⟩
    rw [List.length_cons, Nat.add_right_comm, Nat.add_assoc]

theorem exists_reportsFirst_iff : (∃ e, ReportsFirst n css e) ↔ ∃ cs ∈ css, Malformed cs := by
  induction css generalizing n with
  | nil => simp [not_reportsFirst_nil]
  | cons cs css ih =>
    rw [List.exists_mem_cons_iff]
    by_cases malformed : Malformed cs
    · simp [reportsFirst_cons_of_malformed, malformed]
    · simp [reportsFirst_cons_of_not_malformed, malformed, ih]

theorem result_readLines_eq_error_iff :
    (readLines n css).result = .error e ↔ ReportsFirst n css e := by
  induction css generalizing n with
  | nil => simp [readLines, not_reportsFirst_nil]
  | cons cs css ih =>
    by_cases blank : cs.all isBlank
    · rw [readLines_cons_of_blank blank, ih,
        reportsFirst_cons_of_not_malformed (not_malformed_of_blank blank)]
    cases line : Line.ofChars? cs with
    | none =>
      rw [result_readLines_cons_of_none blank line,
        reportsFirst_cons_of_malformed ((ofChars?_eq_none_iff blank).1 line), Except.error.injEq,
        eq_comm]
    | some l =>
      have fine : ¬Malformed cs := fun malformed => by
        rw [(ofChars?_eq_none_iff blank).2 malformed] at line
        cases line
      rw [result_readLines_cons_of_some blank line, reportsFirst_cons_of_not_malformed fine, ← ih]
      cases (readLines (n + 1) css).result <;> simp [Except.map]

namespace Grammar

variable {s : String}

theorem parse_eq_error_iff :
    parse s = .error e ↔ (readLines 1 (lines s.toList)).result = .error e := by
  unfold parse parseTraced
  rw [Traced.result_bind]
  cases (readLines 1 (lines s.toList)).result <;> simp [Bind.bind, Except.bind]

/-- Reading fails exactly if some line is malformed. The failure then reports the first such line
with its number and what it holds between its blanks, and it is never a lack of names. -/
theorem parse_eq_error_iff_reportsFirst (s : String) :
    ((∃ e, parse s = .error e) ↔ ∃ cs ∈ lines s.toList, Malformed cs) ∧
      (∀ e, parse s = .error e ↔ ReportsFirst 1 (lines s.toList) e) ∧
        parse s ≠ .error .namesExhausted := by
  have reports (e : Failure) : parse s = .error e ↔ ReportsFirst 1 (lines s.toList) e :=
    parse_eq_error_iff.trans result_readLines_eq_error_iff
  refine ⟨?_, reports, fun exhausted => ?_⟩
  · simp only [reports]
    exact exists_reportsFirst_iff
  · obtain ⟨_, _, _, _, _, _, same⟩ := (reports _).1 exhausted
    cases same

example : parse "S -> a\n\n -> b\r\n->" = .error (.malformedLine 3 "-> b") := by decide +kernel

end Grammar

end LeftRecursion
