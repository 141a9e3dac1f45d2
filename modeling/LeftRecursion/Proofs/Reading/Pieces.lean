import LeftRecursion.Reading
import Mathlib.Data.List.DropRight

/-!
# Cutting texts to pieces

A text is cut at its arrows, its line ends and its separators, and the pieces hold none of what was
cut at. Joining pieces of that kind and cutting the result gives them back.
-/

namespace LeftRecursion

open Text

variable {cs left right piece w : List Char} {pieces ws : List (List Char)} {c sep : Char}

def arrow : List Char := ['-', '>']

@[simp] theorem arrow_ne_nil : arrow ≠ [] := by simp [arrow]

theorem arrow_prefix_cons_iff : arrow <+: c :: cs ↔ c = '-' ∧ ∃ rest, cs = '>' :: rest := by
  rw [arrow, List.cons_prefix_cons, eq_comm]
  refine and_congr_right fun _ => ⟨?_, ?_⟩
  · rintro ⟨rest, rfl⟩
    exact ⟨rest, rfl⟩
  · rintro ⟨rest, rfl⟩
    exact ⟨rest, rfl⟩

/-- A new arrow at the start would need a tip from what is added. -/
theorem not_arrow_prefix_append (h : ¬arrow <+: c :: left) (tip : sep ≠ '>') :
    ¬arrow <+: c :: (left ++ sep :: right) := by
  intro here
  obtain ⟨dash, rest, eq⟩ := arrow_prefix_cons_iff.1 here
  cases left with
  | nil =>
    rw [List.nil_append, List.cons.injEq] at eq
    exact tip eq.1
  | cons c' left =>
    rw [List.cons_append, List.cons.injEq] at eq
    exact h (arrow_prefix_cons_iff.2 ⟨dash, left, by rw [eq.1]⟩)

theorem not_arrow_infix_cons (dash : c ≠ '-') (free : ¬arrow <:+: cs) : ¬arrow <:+: c :: cs := by
  rw [List.infix_cons_iff, not_or]
  exact ⟨fun here => dash (arrow_prefix_cons_iff.1 here).1, free⟩

/-- Between two texts without arrows there is one only if the joint makes it. -/
theorem arrow_infix_append_iff :
    arrow <:+: left ++ right ↔
      arrow <:+: left ∨ arrow <:+: right ∨ left.getLast? = some '-' ∧ right.head? = some '>' := by
  rw [List.infix_append_iff_ne_nil, ← List.singleton_suffix_iff_getLast?_eq_some,
    ← List.singleton_prefix_iff_head?_eq_some]
  refine or_congr_right (or_congr_right ⟨?_, ?_⟩)
  · rintro ⟨first, second, some, some', parts, atEnd, atStart⟩
    obtain ⟨none, _⟩ | ⟨tail, rfl, rest⟩ := List.cons_eq_append_iff.1 parts
    · exact absurd none some
    obtain ⟨rfl, rfl⟩ | ⟨_, _, none⟩ := List.cons_eq_append_iff.1 rest
    · exact ⟨atEnd, atStart⟩
    · exact absurd (List.append_eq_nil_iff.1 none.symm).2 some'
  · intro ⟨atEnd, atStart⟩
    exact ⟨['-'], ['>'], by simp, by simp, rfl, atEnd, atStart⟩

theorem not_arrow_infix_append_cons (freeLeft : ¬arrow <:+: left) (freeRight : ¬arrow <:+: right)
    (dash : sep ≠ '-') (tip : sep ≠ '>') : ¬arrow <:+: left ++ sep :: right := by
  rw [arrow_infix_append_iff]
  rintro (inside | inside | ⟨_, joint⟩)
  · exact freeLeft inside
  · exact not_arrow_infix_cons dash freeRight inside
  · exact tip (by simpa using joint)

/-- A join is its last member, or its first member, a separator and the join of the others. -/
theorem intercalate_cons (w : List Char) (ws : List (List Char)) :
    [sep].intercalate (w :: ws) = if ws = [] then w else w ++ sep :: [sep].intercalate ws := by
  split
  · next last => rw [last, List.intercalate_singleton]
  · next more =>
    rw [List.intercalate_cons_of_ne_nil more, List.append_assoc, List.singleton_append]

theorem infix_intercalate (hw : w ∈ ws) : w <:+: [sep].intercalate ws := by
  induction ws with
  | nil => cases hw
  | cons v ws ih =>
    rw [intercalate_cons]
    split
    · next last =>
      rw [last, List.mem_singleton] at hw
      exact hw ▸ List.infix_rfl
    · rcases List.mem_cons.1 hw with rfl | hw
      · exact (List.prefix_append w _).isInfix
      · exact (ih hw).trans ((List.suffix_cons _ _).trans (List.suffix_append _ _)).isInfix

theorem not_arrow_infix_intercalate (free : ∀ w ∈ ws, ¬arrow <:+: w) (dash : sep ≠ '-')
    (tip : sep ≠ '>') : ¬arrow <:+: [sep].intercalate ws := by
  induction ws with
  | nil => simp
  | cons w ws ih =>
    obtain ⟨first, rest⟩ := List.forall_mem_cons.1 free
    rw [intercalate_cons]
    split
    · exact first
    · exact not_arrow_infix_append_cons first (ih rest) dash tip

theorem splitArrows_cons (h : ¬arrow <+: c :: cs) :
    splitArrows (c :: cs) = (splitArrows cs).modifyHead (c :: ·) := by
  rw [splitArrows]
  intro rest dash tip
  exact h (arrow_prefix_cons_iff.2 ⟨dash, rest, tip⟩)

theorem splitArrows_eq_singleton (h : ¬arrow <:+: cs) : splitArrows cs = [cs] := by
  induction cs with
  | nil => rfl
  | cons c cs ih =>
    rw [List.infix_cons_iff, not_or] at h
    rw [splitArrows_cons h.1, ih h.2, List.modifyHead_cons]

theorem splitArrows_append_arrow (h : ¬arrow <:+: left) :
    splitArrows (left ++ arrow ++ right) = left :: splitArrows right := by
  induction left with
  | nil => rfl
  | cons c left ih =>
    rw [List.infix_cons_iff, not_or] at h
    have behind : ¬arrow <+: c :: (left ++ arrow ++ right) := by
      rw [List.append_assoc]
      exact not_arrow_prefix_append h.1 (by decide)
    rw [List.cons_append, List.cons_append, splitArrows_cons behind, ih h.2,
      List.modifyHead_cons]

theorem splitArrows_ne_nil (cs : List Char) : splitArrows cs ≠ [] := by
  fun_induction splitArrows cs <;> simp_all

theorem intercalate_splitArrows (cs : List Char) : arrow.intercalate (splitArrows cs) = cs := by
  fun_induction splitArrows cs with
  | case1 => rfl
  | case2 cs ih => rw [List.intercalate_cons_of_ne_nil (splitArrows_ne_nil cs), ih]; rfl
  | case3 c cs _ ih =>
    obtain ⟨first, rest, split⟩ := List.exists_cons_of_ne_nil (splitArrows_ne_nil cs)
    rw [split] at ih ⊢
    cases rest with
    | nil => simpa using ih
    | cons => simpa using ih

/-- The first piece starts the text, and no piece holds an arrow. -/
theorem splitArrows_spec (cs : List Char) :
    ∃ first rest, splitArrows cs = first :: rest ∧ first <+: cs ∧
      ∀ piece ∈ first :: rest, ¬arrow <:+: piece := by
  fun_induction splitArrows cs with
  | case1 => exact ⟨[], [], rfl, List.nil_prefix, by simp⟩
  | case2 cs ih =>
    obtain ⟨first, rest, split, _, free⟩ := ih
    refine ⟨[], _, rfl, List.nil_prefix, ?_⟩
    rw [split]
    exact List.forall_mem_cons.2 ⟨by simp, free⟩
  | case3 c cs other ih =>
    obtain ⟨first, rest, split, start, free⟩ := ih
    obtain ⟨freeFirst, freeRest⟩ := List.forall_mem_cons.1 free
    refine ⟨c :: first, rest, by rw [split]; rfl, ?_, List.forall_mem_cons.2 ⟨?_, freeRest⟩⟩
    · exact List.cons_prefix_cons.2 ⟨rfl, start⟩
    · rw [List.infix_cons_iff, not_or]
      refine ⟨fun here => ?_, freeFirst⟩
      obtain ⟨dash, more, tip⟩ := arrow_prefix_cons_iff.1 here
      obtain ⟨behind, rfl⟩ := start
      exact other (more ++ behind) dash (by rw [tip]; rfl)

theorem not_arrow_infix_of_mem (h : piece ∈ splitArrows cs) : ¬arrow <:+: piece := by
  obtain ⟨first, rest, split, _, free⟩ := splitArrows_spec cs
  rw [split] at h
  exact free piece h

theorem splitArrows_eq_pair_iff :
    splitArrows cs = [left, right] ↔
      cs = left ++ arrow ++ right ∧ ¬arrow <:+: left ∧ ¬arrow <:+: right := by
  constructor
  · intro split
    have joined := intercalate_splitArrows cs
    have free : ∀ piece ∈ [left, right], ¬arrow <:+: piece := by
      rw [← split]
      exact fun _ => not_arrow_infix_of_mem
    rw [split] at joined
    exact ⟨by simpa using joined.symm, free left (by simp), free right (by simp)⟩
  · rintro ⟨rfl, freeLeft, freeRight⟩
    rw [splitArrows_append_arrow freeLeft, splitArrows_eq_singleton freeRight]

section Words

variable {separates : Char → Bool}

theorem splitOnP_spec (separates : Char → Bool) (cs : List Char) :
    ∃ first rest, cs.splitOnP separates = first :: rest ∧ first <+: cs ∧
      (∀ piece ∈ first :: rest, piece <:+: cs ∧ ∀ c ∈ piece, ¬separates c) := by
  induction cs with
  | nil => exact ⟨[], [], rfl, List.nil_prefix, by simp⟩
  | cons c cs ih =>
    obtain ⟨first, rest, split, start, free⟩ := ih
    rw [List.splitOnP_cons_eq_if_modifyHead, split]
    have further : ∀ piece ∈ first :: rest, piece <:+: c :: cs ∧ ∀ c ∈ piece, ¬separates c :=
      fun piece hp => ⟨List.infix_cons (free piece hp).1, (free piece hp).2⟩
    by_cases here : separates c
    · refine ⟨[], first :: rest, if_pos here, List.nil_prefix, ?_⟩
      exact List.forall_mem_cons.2 ⟨⟨List.nil_infix, by simp⟩, further⟩
    · have start' : c :: first <+: c :: cs := List.cons_prefix_cons.2 ⟨rfl, start⟩
      refine ⟨c :: first, rest, if_neg here, start', ?_⟩
      obtain ⟨atFirst, atRest⟩ := List.forall_mem_cons.1 further
      exact List.forall_mem_cons.2
        ⟨⟨start'.isInfix, List.forall_mem_cons.2 ⟨here, atFirst.2⟩⟩, atRest⟩

theorem of_mem_words (h : w ∈ words separates cs) : w <:+: cs ∧ ∀ c ∈ w, ¬separates c := by
  obtain ⟨first, rest, split, _, free⟩ := splitOnP_spec separates cs
  apply free
  rw [← split]
  exact (List.mem_filter.1 h).1

theorem words_eq_singleton (nonempty : w ≠ []) (free : ∀ c ∈ w, ¬separates c) :
    words separates w = [w] := by
  rw [words, List.splitOnP_eq_singleton fun c hc => by simpa using free c hc]
  simpa using nonempty

theorem words_append_cons (h : separates sep) (left right : List Char) :
    words separates (left ++ sep :: right) = words separates left ++ words separates right := by
  rw [words, List.splitOnP_append_cons left right h, List.filter_append]
  rfl

theorem mem_intercalate {α : Type} {x : α} {gap : List α} {pieces : List (List α)}
    (h : x ∈ gap.intercalate pieces) : x ∈ gap ∨ ∃ piece ∈ pieces, x ∈ piece := by
  induction pieces with
  | nil => cases h
  | cons piece pieces ih =>
    by_cases last : pieces = []
    · rw [last, List.intercalate_singleton] at h
      exact .inr ⟨piece, List.mem_cons_self .., h⟩
    · rw [List.intercalate_cons_of_ne_nil last, List.mem_append, List.mem_append] at h
      rcases h with (h | h) | h
      · exact .inr ⟨piece, List.mem_cons_self .., h⟩
      · exact .inl h
      · exact (ih h).imp_right fun ⟨piece', later, hx⟩ =>
          ⟨piece', List.mem_cons_of_mem _ later, hx⟩

/-- Joined by a separator, words are read back. -/
theorem words_intercalate (h : separates sep)
    (free : ∀ w ∈ ws, w ≠ [] ∧ ∀ c ∈ w, ¬separates c) :
    words separates ([sep].intercalate ws) = ws := by
  induction ws with
  | nil => rfl
  | cons w ws ih =>
    obtain ⟨⟨nonempty, freeFirst⟩, freeRest⟩ := List.forall_mem_cons.1 free
    have first := words_eq_singleton nonempty freeFirst
    rw [intercalate_cons]
    split
    · next last => rw [last, first]
    · rw [words_append_cons h, first, ih freeRest, List.singleton_append]

end Words

theorem closeLines_eq_self (h : ∀ piece ∈ pieces, piece ≠ [] ∧ piece.getLast? ≠ some '\r') :
    closeLines pieces = pieces := by
  fun_induction closeLines pieces with
  | case1 => rfl
  | case2 => simp at h
  | case3 => rfl
  | case4 piece rest _ ih =>
    obtain ⟨atFirst, atRest⟩ := List.forall_mem_cons.1 h
    rw [ih atRest, dropReturn, if_neg atFirst.2]

/-- Lines that do not end in a carriage return are read back. -/
theorem lines_intercalate (free : ∀ piece ∈ pieces, '\n' ∉ piece)
    (closed : ∀ piece ∈ pieces, piece ≠ [] ∧ piece.getLast? ≠ some '\r') :
    lines (['\n'].intercalate pieces) = pieces := by
  by_cases none : pieces = []
  · rw [none, List.intercalate_nil, lines_nil]
  · rw [lines, List.splitOn_intercalate _ free none, closeLines_eq_self closed]

theorem trim_prefix_trimStart (cs : List Char) : trim cs <+: trimStart cs :=
  List.rdropWhile_prefix isBlank (trimStart cs)

theorem trim_eq_nil_iff : trim cs = [] ↔ cs.all isBlank := by
  have ends : trim cs = [] ↔ ∀ c ∈ trimStart cs, isBlank c := List.rdropWhile_eq_nil_iff
  rw [ends, List.all_eq_true]
  constructor
  · intro blank
    cases first : trimStart cs with
    | nil => exact List.dropWhile_eq_nil_iff.1 first
    | cons c rest =>
      have visible := List.head?_dropWhile_not isBlank cs
      rw [← trimStart, first] at visible
      rw [first] at blank
      simp_all
  · intro blank c hc
    exact blank c ((List.dropWhile_sublist _).subset hc)

theorem not_isBlank_of_trim {name : Char} {rest : List Char} (h : trim cs = name :: rest) :
    ¬isBlank name := by
  obtain ⟨more, eq⟩ := trim_prefix_trimStart cs
  have start := List.head?_dropWhile_not isBlank cs
  rw [h] at eq
  rw [← trimStart, ← eq] at start
  simpa using start

end LeftRecursion
