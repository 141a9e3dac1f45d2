import LeftRecursion.Proofs.Reading.Pieces
import LeftRecursion.Rendering
import Mathlib.Data.List.Nodup

/-!
# LaTeX is unambiguous

The layout is made of rows, words and signs: rows end at newlines, the words of a row stand apart by
spaces, and among the words behind the arrow two signs join alternatives and symbols. An escape is
never empty, it holds no space and no newline unless the character is one, and it is neither of the
signs. So the text can be taken apart from the outside inwards, and two grammars with the same text
are the same up to the kinds of their symbols (`render_latex_eq_iff`).
-/

namespace LeftRecursion

open Text

variable {c d : Char} {cs ds : List Char}

section Joins

variable {α : Type} {x : α} {as bs as' bs' : List α} {pieces pieces' : List (List α)}

/-- What stands before the first `x` and what stands behind it. -/
theorem append_cons_inj [DecidableEq α] (free : x ∉ as) (free' : x ∉ bs)
    (same : as ++ x :: as' = bs ++ x :: bs') : as = bs ∧ as' = bs' := by
  have cut := congrArg (List.splitOn x) same
  rw [List.splitOn_append_cons_self_of_not_mem free,
    List.splitOn_append_cons_self_of_not_mem free', List.cons.injEq] at cut
  refine ⟨cut.1, ?_⟩
  calc as' = [x].intercalate (as'.splitOn x) := (List.intercalate_splitOn x).symm
    _ = [x].intercalate (bs'.splitOn x) := by rw [cut.2]
    _ = bs' := List.intercalate_splitOn x

def Separable (x : α) (pieces : List (List α)) : Prop :=
  ∀ piece ∈ pieces, piece ≠ [] ∧ x ∉ piece

theorem Separable.filter_splitOn_intercalate [DecidableEq α] (h : Separable x pieces) :
    (([x].intercalate pieces).splitOn x).filter (· ≠ []) = pieces := by
  by_cases none : pieces = []
  · subst none
    rfl
  · rw [List.splitOn_intercalate x (fun piece hp => (h piece hp).2) none, List.filter_eq_self]
    intro piece hp
    simpa using (h piece hp).1

theorem Separable.eq_of_intercalate_eq [DecidableEq α] (h : Separable x pieces)
    (h' : Separable x pieces') (same : [x].intercalate pieces = [x].intercalate pieces') :
    pieces = pieces' := by
  rw [← h.filter_splitOn_intercalate, same, h'.filter_splitOn_intercalate]

/-- If each piece but the last is closed by the same text and then the separator, then the pieces
are those between the separators, with what closes them. -/
theorem splitOn_intercalate_concat [DecidableEq α] {gap last : List α} (hgap : x ∉ gap)
    (hlast : x ∉ last) (free : ∀ piece ∈ pieces, x ∉ piece) :
    ((gap ++ [x]).intercalate (pieces ++ [last])).splitOn x = pieces.map (· ++ gap) ++ [last] := by
  induction pieces with
  | nil =>
    rw [List.nil_append, List.intercalate_singleton]
    exact List.splitOn_eq_singleton hlast
  | cons piece pieces ih =>
    obtain ⟨hpiece, free⟩ := List.forall_mem_cons.1 free
    have closed : x ∉ piece ++ gap := by
      rw [List.mem_append, not_or]
      exact ⟨hpiece, hgap⟩
    rw [List.cons_append, List.intercalate_cons_of_ne_nil (by simp), ← List.append_assoc piece,
      List.append_assoc, List.singleton_append,
      List.splitOn_append_cons_self_of_not_mem closed, ih free]
    rfl

/-- If equal images have equal second images, then so have lists of images. -/
theorem map_eq_map_of_imp {β γ : Type} {f : α → β} {f' : α → γ}
    (imp : ∀ a ∈ as, ∀ b ∈ bs, f a = f b → f' a = f' b) (same : as.map f = bs.map f) :
    as.map f' = bs.map f' := by
  induction as generalizing bs with
  | nil =>
    cases bs with
    | nil => rfl
    | cons => cases same
  | cons a as ih =>
    cases bs with
    | nil => cases same
    | cons b bs =>
      rw [List.map_cons, List.map_cons, List.cons.injEq] at same
      have first := imp a (List.mem_cons_self ..) b (List.mem_cons_self ..) same.1
      have rest := ih (fun a ha b hb =>
        imp a (List.mem_cons_of_mem _ ha) b (List.mem_cons_of_mem _ hb)) same.2
      rw [List.map_cons, List.map_cons, first, rest]

end Joins

namespace Latex

/-- The characters that only the layout writes as themselves. -/
def gaps : List Char := [' ', '\n']

def specials : List Char :=
  ['&', '%', '$', '#', '_', '{', '}', '[', ']', '~', '^', '<', '>', '!', '\\']

def emptySign : List Char := "\\epsilon".toList

def symbolSign : List Char := "\\".toList

def alternativeSign : List Char := "\\mid".toList

def signs : List (List Char) := [emptySign, symbolSign, alternativeSign]

theorem escape_of_not_mem (h : c ∉ specials) : escape c = [c] := by
  simp only [specials, List.mem_cons, List.not_mem_nil, or_false, not_or] at h
  simp [escape, h]

theorem escape_of_mem (h : c ∈ specials) :
    1 < (escape c).length ∧ gaps.all (· ∉ escape c) ∧ escape c ∉ signs := by
  have all : specials.all fun c =>
      1 < (escape c).length ∧ gaps.all (· ∉ escape c) ∧ escape c ∉ signs := by decide
  simpa only [decide_eq_true_eq] using List.all_eq_true.1 all c h

theorem escape_ne_nil (c : Char) : escape c ≠ [] := by
  by_cases special : c ∈ specials
  · exact List.ne_nil_of_length_pos (Nat.lt_of_succ_lt (escape_of_mem special).1)
  · rw [escape_of_not_mem special]
    exact List.cons_ne_nil c []

theorem not_mem_escape (gap : d ∈ gaps) (other : c ≠ d) : d ∉ escape c := by
  by_cases special : c ∈ specials
  · exact of_decide_eq_true (List.all_eq_true.1 (escape_of_mem special).2.1 d gap)
  · rw [escape_of_not_mem special, List.mem_singleton]
    exact other.symm

theorem escape_not_mem_signs (c : Char) : escape c ∉ signs := by
  by_cases special : c ∈ specials
  · exact (escape_of_mem special).2.2
  · rw [escape_of_not_mem special]
    have long : ∀ {w : List Char}, 1 < w.length → [c] ≠ w := by
      rintro _ several rfl
      exact absurd several (by simp)
    have backslash : [c] ≠ symbolSign := fun same =>
      special ((List.cons.inj same).1 ▸ by decide)
    simp only [signs, List.mem_cons, List.not_mem_nil, or_false, not_or]
    exact ⟨long (by decide), backslash, long (by decide)⟩

theorem escape_injective : Function.Injective escape := by
  have nodup : (specials.map escape).Nodup := by decide
  have single {c d : Char} (hc : c ∈ specials) (hd : d ∉ specials) : escape c ≠ escape d := by
    intro same
    have several := (escape_of_mem hc).1
    rw [same, escape_of_not_mem hd] at several
    exact absurd several (by simp)
  intro c d same
  by_cases hc : c ∈ specials
  · by_cases hd : d ∈ specials
    · exact List.inj_on_of_nodup_map nodup hc hd same
    · exact absurd same (single hc hd)
  · by_cases hd : d ∈ specials
    · exact absurd same.symm (single hd hc)
    · rw [escape_of_not_mem hc, escape_of_not_mem hd] at same
      exact (List.cons.inj same).1

end Latex

open Latex

/-- The character of a symbol, whatever its kind, and nothing for the empty word. -/
def Symbol.character? : Symbol → Option Char
  | .epsilon => none
  | s => some s.toChar

def Body.characters (p : Body) : List (Option Char) :=
  p.map Symbol.character?

namespace Latex

def write : Option Char → List Char
  | none => emptySign
  | some c => escape c

theorem write_ne_nil (x : Option Char) : write x ≠ [] := by
  cases x with
  | none => decide
  | some c => exact escape_ne_nil c

theorem write_injective : Function.Injective write := by
  have sign (c : Char) : escape c ≠ emptySign := fun same =>
    escape_not_mem_signs c (same ▸ List.mem_cons_self ..)
  intro x y same
  cases x with
  | none =>
    cases y with
    | none => rfl
    | some d => exact absurd same.symm (sign d)
  | some c =>
    cases y with
    | none => exact absurd same (sign c)
    | some d => rw [escape_injective same]

/-- Nothing is written as a sign that joins. -/
theorem write_ne {w : List Char} (sign : w ∈ signs) (joins : w ≠ emptySign) (x : Option Char) :
    write x ≠ w := by
  cases x with
  | none => exact joins.symm
  | some c =>
    rintro rfl
    exact escape_not_mem_signs c sign

end Latex

namespace Symbol

variable {s : Symbol}

theorem latex_eq (s : Symbol) : s.latex = write s.character? := by
  cases s <;> rfl

theorem latex_ne_nil (s : Symbol) : s.latex ≠ [] := by
  rw [latex_eq]
  exact write_ne_nil _

theorem not_mem_latex (gap : d ∈ gaps) (other : s.toChar ≠ d) : d ∉ s.latex := by
  cases s with
  | epsilon =>
    have free : gaps.all (· ∉ emptySign) := by decide
    exact of_decide_eq_true (List.all_eq_true.1 free d gap)
  | nonTerminal c => exact not_mem_escape gap other
  | terminal c => exact not_mem_escape gap other

end Symbol

namespace Latex

def bodyWords (xs : List (Option Char)) : List (List Char) :=
  [symbolSign].intercalate (xs.map ([write ·]))

def rightWords (xss : List (List (Option Char))) : List (List Char) :=
  [alternativeSign].intercalate (xss.map bodyWords)

theorem bodyWords_injective : Function.Injective bodyWords := by
  have separable (xs : List (Option Char)) : Separable symbolSign (xs.map ([write ·])) := by
    intro piece hp
    obtain ⟨x, _, rfl⟩ := List.mem_map.1 hp
    refine ⟨List.cons_ne_nil _ _, ?_⟩
    rw [List.mem_singleton]
    exact (write_ne (by decide) (by decide) x).symm
  intro xs ys same
  have single : Function.Injective ([write ·] : Option Char → List (List Char)) := fun x y same =>
    write_injective (List.cons.inj same).1
  exact List.map_injective_iff.2 single ((separable xs).eq_of_intercalate_eq (separable ys) same)

theorem separable_bodyWords {xss : List (List (Option Char))} (nonempty : [] ∉ xss) :
    Separable alternativeSign (xss.map bodyWords) := by
  intro piece hp
  obtain ⟨xs, hxs, rfl⟩ := List.mem_map.1 hp
  constructor
  · intro none
    have same : xs = [] := bodyWords_injective none
    exact nonempty (same ▸ hxs)
  · intro sign
    rw [bodyWords] at sign
    rcases mem_intercalate sign with between | ⟨word, hword, here⟩
    · exact absurd (List.mem_singleton.1 between) (by decide)
    · obtain ⟨x, _, rfl⟩ := List.mem_map.1 hword
      exact write_ne (by decide) (by decide) x (List.mem_singleton.1 here).symm

theorem eq_of_rightWords_eq {xss yss : List (List (Option Char))} (hx : [] ∉ xss) (hy : [] ∉ yss)
    (same : rightWords xss = rightWords yss) : xss = yss :=
  List.map_injective_iff.2 bodyWords_injective
    ((separable_bodyWords hx).eq_of_intercalate_eq (separable_bodyWords hy) same)

end Latex

/-- Joined by a word between two separators, texts have their words joined by that word. -/
theorem words_intercalate_spaced {separates : Char → Bool} {sep : Char} {w : List Char}
    (h : separates sep) (nonempty : w ≠ []) (free : ¬w.any separates) (pieces : List (List Char)) :
    words separates ((sep :: (w ++ [sep])).intercalate pieces) =
      [w].intercalate (pieces.map (words separates)) := by
  have one : words separates w = [w] := words_eq_singleton nonempty fun c hc here =>
    free (List.any_eq_true.2 ⟨c, hc, here⟩)
  induction pieces with
  | nil => rfl
  | cons piece pieces ih =>
    by_cases last : pieces = []
    · rw [last, List.intercalate_singleton, List.map_singleton, List.intercalate_singleton]
    · have later : pieces.map (words separates) ≠ [] := by simpa using last
      rw [List.map_cons, List.intercalate_cons_of_ne_nil last,
        List.intercalate_cons_of_ne_nil later, List.append_assoc, List.cons_append,
        words_append_cons h, List.append_assoc, List.singleton_append, words_append_cons h,
        one, ih, List.append_assoc]

def isSpace (c : Char) : Bool :=
  c = ' '

theorem words_latex {p : Body} (visible : ∀ s ∈ p, s.toChar ≠ ' ') :
    words isSpace p.latex = bodyWords p.characters := by
  have join : " \\ ".toList = ' ' :: (symbolSign ++ [' ']) := by decide
  have single : ∀ s ∈ p, words isSpace s.latex = [write s.character?] := by
    intro s hs
    have free : ' ' ∉ s.latex := s.not_mem_latex (by decide) (visible s hs)
    rw [← s.latex_eq]
    refine words_eq_singleton s.latex_ne_nil fun c hc space => ?_
    exact free (of_decide_eq_true space ▸ hc)
  rw [Body.latex, join, words_intercalate_spaced rfl (by decide) (by decide), List.map_map,
    bodyWords, Body.characters, List.map_map]
  exact congrArg _ (List.map_congr_left single)

/-- A rule can be typeset: its left side and its symbols are no gaps, and its alternatives are not
empty. -/
structure Rule.Typesettable (r : Rule) : Prop where
  left : r.left ∉ gaps
  nonempty : [] ∉ r.alternatives
  symbols : ∀ p ∈ r.alternatives, ∀ s ∈ p, s.toChar ∉ gaps

instance (r : Rule) : Decidable r.Typesettable :=
  decidable_of_iff (r.left ∉ gaps ∧ [] ∉ r.alternatives ∧
      ∀ p ∈ r.alternatives, ∀ s ∈ p, s.toChar ∉ gaps)
    ⟨fun ⟨left, nonempty, symbols⟩ => ⟨left, nonempty, symbols⟩,
      fun ⟨left, nonempty, symbols⟩ => ⟨left, nonempty, symbols⟩⟩

namespace Rule

variable {r r' : Rule}

def characters (r : Rule) : List (List (Option Char)) :=
  r.alternatives.map Body.characters

theorem Typesettable.nil_not_mem_characters (h : r.Typesettable) : [] ∉ r.characters := by
  intro none
  obtain ⟨p, hp, empty⟩ := List.mem_map.1 none
  exact h.nonempty (List.map_eq_nil_iff.1 empty ▸ hp)

theorem Typesettable.words_latexRight (h : r.Typesettable) :
    words isSpace r.latexRight = rightWords r.characters := by
  have join : " \\mid ".toList = ' ' :: (alternativeSign ++ [' ']) := by decide
  have visible : ∀ p ∈ r.alternatives, words isSpace p.latex = bodyWords p.characters := by
    intro p hp
    apply words_latex
    rintro s hs space
    exact h.symbols p hp s hs (space ▸ by decide)
  rw [latexRight, join, words_intercalate_spaced rfl (by decide) (by decide), List.map_map,
    rightWords, characters, List.map_map]
  exact congrArg _ (List.map_congr_left visible)

/-- The left side ends at the first space, and the words behind the arrow are those of the
alternatives. -/
theorem Typesettable.eq_of_latexRow_eq (h : r.Typesettable) (h' : r'.Typesettable)
    (same : r.latexRow = r'.latexRow) : r.left = r'.left ∧ r.characters = r'.characters := by
  have arrow : " & \\rightarrow &".toList = ' ' :: "& \\rightarrow &".toList := by decide
  have free {r : Rule} (h : r.Typesettable) : ' ' ∉ Latex.escape r.left :=
    not_mem_escape (by decide) fun space => h.left (space ▸ by decide)
  rw [latexRow, latexRow, arrow, List.append_assoc, List.append_assoc, List.cons_append,
    List.cons_append] at same
  obtain ⟨left, right⟩ := append_cons_inj (free h) (free h') same
  have alternatives := congrArg (words isSpace) (List.append_cancel_left right)
  rw [h.words_latexRight, h'.words_latexRight] at alternatives
  exact ⟨escape_injective left,
    eq_of_rightWords_eq h.nil_not_mem_characters h'.nil_not_mem_characters alternatives⟩

theorem latexRow_eq (left : r.left = r'.left) (right : r.characters = r'.characters) :
    r.latexRow = r'.latexRow := by
  have body (p : Body) : p.latex = " \\ ".toList.intercalate (p.characters.map write) := by
    rw [Body.latex, Body.characters, List.map_map]
    exact congrArg _ (List.map_congr_left fun s _ => s.latex_eq)
  have bodies (r : Rule) : r.alternatives.map Body.latex =
      r.characters.map fun xs => " \\ ".toList.intercalate (xs.map write) := by
    rw [characters, List.map_map]
    exact List.map_congr_left fun p _ => body p
  rw [latexRow, latexRow, latexRight, latexRight, bodies, bodies, left, right]

theorem Typesettable.newline_not_mem_latexRow (h : r.Typesettable) : '\n' ∉ r.latexRow := by
  have gap : '\n' ∈ gaps := by decide
  have left : '\n' ∉ Latex.escape r.left := not_mem_escape gap fun newline => h.left (newline ▸ gap)
  have arrow : '\n' ∉ " & \\rightarrow &".toList := by decide
  have right : '\n' ∉ r.latexRight := by
    intro inside
    rw [latexRight] at inside
    rcases mem_intercalate inside with between | ⟨text, htext, inside⟩
    · exact absurd between (by decide)
    obtain ⟨p, hp, rfl⟩ := List.mem_map.1 htext
    rw [Body.latex] at inside
    rcases mem_intercalate inside with between | ⟨word, hword, inside⟩
    · exact absurd between (by decide)
    obtain ⟨s, hs, rfl⟩ := List.mem_map.1 hword
    exact s.not_mem_latex gap (fun newline => h.symbols p hp s hs (newline ▸ gap)) inside
  rw [latexRow, List.mem_append, List.mem_append, not_or, not_or]
  exact ⟨⟨left, arrow⟩, right⟩

end Rule

namespace Grammar

variable {g h : Grammar}

def Typesettable (g : Grammar) : Prop :=
  ∀ r ∈ g.rules, r.Typesettable

instance (g : Grammar) : Decidable g.Typesettable :=
  inferInstanceAs (Decidable (∀ r ∈ g.rules, r.Typesettable))

/-- The rows are the lines but for the first and the last. -/
theorem Typesettable.splitOn_latex (hg : g.Typesettable) :
    g.latex.splitOn '\n' =
      ("\\[\\begin\x7barray\x7d\x7bcll\x7d".toList :: g.rules.map Rule.latexRow).map
          (· ++ "\\\\".toList) ++ ["\\end\x7barray\x7d\\]".toList] := by
  have join : "\\\\\n".toList = "\\\\".toList ++ ['\n'] := by decide
  rw [latex, join]
  refine splitOn_intercalate_concat (by decide) (by decide) (List.forall_mem_cons.2 ⟨by decide, ?_⟩)
  intro row hrow
  obtain ⟨r, hr, rfl⟩ := List.mem_map.1 hrow
  exact (hg r hr).newline_not_mem_latexRow

theorem Typesettable.map_latexRow_eq (hg : g.Typesettable) (hh : h.Typesettable)
    (same : g.latex = h.latex) : g.rules.map Rule.latexRow = h.rules.map Rule.latexRow := by
  have lines := congrArg (List.splitOn '\n') same
  rw [hg.splitOn_latex, hh.splitOn_latex] at lines
  have closed := List.append_cancel_right lines
  have injective : Function.Injective (· ++ "\\\\".toList : List Char → List Char) :=
    fun _ _ => List.append_cancel_right
  exact (List.cons.inj (List.map_injective_iff.2 injective closed)).2

/-- The rules without the kinds of their symbols. -/
def characters (g : Grammar) : List (Char × List (List (Option Char))) :=
  g.rules.map fun r => (r.left, r.characters)

theorem characters_eq_map (g : Grammar) :
    g.characters =
      g.nonTerminals.map fun a => (a, (g.alternatives a).map Body.characters) := by
  rw [characters, rules_eq_map, List.map_map]
  rfl

theorem characters_eq_iff :
    g.characters = h.characters ↔ g.nonTerminals = h.nonTerminals ∧
      ∀ a ∈ g, (g.alternatives a).map Body.characters = (h.alternatives a).map Body.characters := by
  have first (k : Grammar) : k.characters.map Prod.fst = k.nonTerminals := by
    rw [characters, List.map_map]
    rfl
  constructor
  · intro same
    have names : g.nonTerminals = h.nonTerminals := by
      rw [← first, same, first]
    refine ⟨names, fun a ha => ?_⟩
    rw [characters_eq_map, characters_eq_map, ← names] at same
    exact (Prod.mk.inj (List.map_inj_left.1 same a ha)).2
  · rintro ⟨names, alternatives⟩
    rw [characters_eq_map, characters_eq_map, ← names]
    exact List.map_congr_left fun a ha => Prod.ext rfl (alternatives a ha)

theorem latex_eq_of_characters_eq (same : g.characters = h.characters) : g.latex = h.latex := by
  have rows : g.rules.map Rule.latexRow = h.rules.map Rule.latexRow := by
    refine map_eq_map_of_imp (fun r _ r' _ equal => ?_) same
    exact Rule.latexRow_eq (Prod.mk.inj equal).1 (Prod.mk.inj equal).2
  rw [latex, latex, rows]

theorem Typesettable.characters_eq (hg : g.Typesettable) (hh : h.Typesettable)
    (same : g.latex = h.latex) : g.characters = h.characters := by
  refine map_eq_map_of_imp (fun r hr r' hr' row => ?_) (hg.map_latexRow_eq hh same)
  obtain ⟨left, right⟩ := (hg r hr).eq_of_latexRow_eq (hh r' hr') row
  exact Prod.ext left right

/-- Two grammars that can be typeset have the same LaTeX exactly if they have the same names in the
same order and, for each, the same alternatives in the same order, symbol by symbol up to the kinds
of the symbols. -/
theorem render_latex_eq_iff (hg : g.Typesettable) (hh : h.Typesettable) :
    g.render .latex = h.render .latex ↔ g.nonTerminals = h.nonTerminals ∧
      ∀ a ∈ g, (g.alternatives a).map Body.characters = (h.alternatives a).map Body.characters := by
  rw [← characters_eq_iff]
  constructor
  · intro same
    apply hg.characters_eq hh
    rw [← String.toList_ofList (l := g.latex), ← String.toList_ofList (l := h.latex)]
    exact congrArg String.toList same
  · exact fun same => congrArg String.ofList (latex_eq_of_characters_eq same)

/-- Names and symbols that the layout is made of. The kind of the first symbol is left open. -/
def ofSigns (kind : Char → Symbol) : Grammar where
  rules := [
    ⟨'\\', [[kind '&', .terminal 'e', .terminal '\\'], [.epsilon], [.terminal 'e']]⟩,
    ⟨'&', []⟩]
  nodup := by
    show ['\\', '&'].Nodup
    decide

theorem render_latex_eq_iff_ofSigns :
    ((ofSigns .terminal).Typesettable ∧ (ofSigns .nonTerminal).Typesettable) ∧
      (ofSigns .terminal).render .latex = (ofSigns .nonTerminal).render .latex ∧
      (ofSigns .terminal).nonTerminals = (ofSigns .nonTerminal).nonTerminals ∧
        ∀ a ∈ ofSigns .terminal, ((ofSigns .terminal).alternatives a).map Body.characters =
          ((ofSigns .nonTerminal).alternatives a).map Body.characters := by
  have terminals : (ofSigns .terminal).Typesettable := by decide
  have nonTerminals : (ofSigns .nonTerminal).Typesettable := by decide
  have same : (ofSigns .terminal).render .latex = (ofSigns .nonTerminal).render .latex := rfl
  exact ⟨⟨terminals, nonTerminals⟩, same, (render_latex_eq_iff terminals nonTerminals).1 same⟩

end Grammar

end LeftRecursion
