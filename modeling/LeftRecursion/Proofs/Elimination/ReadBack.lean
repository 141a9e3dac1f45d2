import LeftRecursion.Proofs.Elimination.HelperUse
import LeftRecursion.Proofs.Reading.FirstError
import Mathlib.Data.List.Infix

/-!
# The result is read back

Elimination joins bodies, and every symbol keeps its kind, so a result without signs of the empty
word in its old names lacks only one thing to be writable: a body that ends in a dash may have come
before the rest of one that goes on with the tip of an arrow. Then the plain text has a line with
two arrows, which is no production. It is never read as another grammar.
-/

namespace LeftRecursion

open Text

variable {isName : Char → Bool} {p q : Body} {b c : Char}

/-- The character of the symbol is read as this symbol, if `isName` tells the non-terminals. The
sign of the empty word is left to the body that it stands in. -/
def Symbol.Legible (isName : Char → Bool) (s : Symbol) : Prop :=
  ¬Line.isSeparator s.toChar ∧ (s = .epsilon ∨ Symbol.ofChar isName s.toChar = s)

namespace Body

/-- The body does not stand for the empty word, be it as a sign of it or as nothing at all, and it
is not taken for that sign. -/
structure Proper (p : Body) : Prop where
  nonempty : p ≠ []
  noSign : .epsilon ∉ p
  several : p.toChars ≠ [Symbol.epsilonChar]

theorem toChars_append (p q : Body) : toChars (p ++ q) = p.toChars ++ q.toChars :=
  List.map_append

@[simp] theorem toChars_eq_nil_iff : p.toChars = [] ↔ p = [] :=
  List.map_eq_nil_iff

theorem getLast?_toChars_append (some : q ≠ []) :
    (toChars (p ++ q)).getLast? = q.toChars.getLast? := by
  rw [toChars_append, List.getLast?_append_of_ne_nil _ (toChars_eq_nil_iff.not.2 some)]

theorem head?_toChars_append (some : p ≠ []) :
    (toChars (p ++ q)).head? = p.toChars.head? := by
  rw [toChars_append, List.head?_append_of_ne_nil _ (toChars_eq_nil_iff.not.2 some)]

theorem Proper.append (proper : p.Proper) (noSign : .epsilon ∉ q) : Proper (p ++ q) where
  nonempty := List.append_ne_nil_of_left_ne_nil proper.nonempty q
  noSign hs := (List.mem_append.1 hs).elim proper.noSign noSign
  several alone := by
    rw [toChars_append] at alone
    rcases List.append_eq_singleton_iff.1 alone with ⟨none, _⟩ | ⟨alone, _⟩
    · exact proper.nonempty (toChars_eq_nil_iff.1 none)
    · exact proper.several alone

theorem proper_concat (noSign : .epsilon ∉ q) (other : c ≠ Symbol.epsilonChar) :
    Proper (q ++ [.nonTerminal c]) where
  nonempty := List.concat_ne_nil _ q
  noSign := by simpa using noSign
  several alone := by
    rw [toChars_append] at alone
    rcases List.append_eq_singleton_iff.1 alone with ⟨_, last⟩ | ⟨_, none⟩
    · exact other (List.singleton_inj.1 last)
    · cases none

theorem writable_iff (symbols : ∀ s ∈ p, s.Legible isName) (whole : p = epsilon ∨ p.Proper) :
    p.Writable isName ↔ ¬arrow <:+: p.toChars := by
  have ofChar {s : Symbol} (hs : s ∈ p) (visible : s ≠ .epsilon) :
      Symbol.ofChar isName s.toChar = s :=
    (symbols s hs).2.resolve_left visible
  refine ⟨Writable.noArrow, fun noArrow => ⟨?_, ?_, fun s hs => (symbols s hs).1, noArrow, ?_, ?_⟩⟩
  · rcases whole with rfl | proper
    · exact List.cons_ne_nil _ _
    · exact proper.nonempty
  · exact whole.imp_right fun proper => ⟨proper.noSign, proper.several⟩
  · intro c hc
    exact (Symbol.ofChar_eq_nonTerminal_iff.1 (ofChar hc (by simp))).1
  · intro c hc
    exact (Symbol.ofChar_eq_terminal_iff.1 (ofChar hc (by simp))).1

theorem Writable.legible (writable : p.Writable isName) : ∀ s ∈ p, s.Legible isName := by
  intro s hs
  refine ⟨writable.unseparated s hs, ?_⟩
  cases s with
  | nonTerminal c => exact .inr (if_pos (writable.nonTerminals c hs))
  | terminal c => exact .inr (if_neg (writable.terminals c hs))
  | epsilon => exact .inl rfl

theorem Writable.proper (writable : p.Writable isName) (unsigned : p ≠ epsilon) : p.Proper where
  nonempty := writable.nonempty
  noSign := (writable.emptyWord.resolve_left unsigned).1
  several := (writable.emptyWord.resolve_left unsigned).2

end Body

namespace Grammar

variable {g h k : Grammar} {a helper : Char} {s : String}

theorem symbol_legible_of_mem_helperNames (hc : c ∈ helperNames) :
    (Symbol.nonTerminal c).Legible g.isNonTerminal := by
  have apart : helperNames.all (!Line.isSeparator ·) := by decide
  refine ⟨by simpa using List.all_eq_true.1 apart c hc, .inr (if_pos ?_)⟩
  simp [isNonTerminal, isUppercase_of_mem_helperNames hc]

def NoEpsilonBody (g : Grammar) : Prop :=
  ∀ a, ∀ p ∈ g.alternatives a, p ≠ Body.epsilon

instance (g : Grammar) : Decidable g.NoEpsilonBody :=
  decidable_of_iff _ forall_mem_alternatives_iff.symm

/-- What holds of every grammar `h` on the way from a grammar `g` that was read and has no sign of
the empty word. -/
structure Legible (g h : Grammar) : Prop where
  kept : ∀ a ∈ g, a ∈ h
  added : ∀ a ∈ h, a ∉ g → a ∈ helperNames
  symbols : ∀ a, ∀ p ∈ h.alternatives a, ∀ s ∈ p, s.Legible g.isNonTerminal
  whole : ∀ a, ∀ p ∈ h.alternatives a, p.Proper ∨ a ∉ g ∧ p = Body.epsilon

namespace Legible

theorem proper (legible : Legible g h) (ha : a ∈ g) (hp : p ∈ h.alternatives a) : p.Proper :=
  (legible.whole a p hp).resolve_right fun other => other.1 ha

/-- What follows a leading name has no sign of the empty word. -/
theorem noSign_of_cons_mem (legible : Legible g h) (ha : a ∈ g)
    (hq : .nonTerminal b :: q ∈ h.alternatives a) : .epsilon ∉ q := fun sign =>
  (legible.proper ha hq).noSign (List.mem_cons_of_mem _ sign)

theorem start (writable : g.Writable) (unsigned : g.NoEpsilonBody) : Legible g g where
  kept _ ha := ha
  added _ ha new := absurd ha new
  symbols a p hp := (writable.bodies a p hp).legible
  whole a p hp := .inl ((writable.bodies a p hp).proper (unsigned a p hp))

theorem substitute (legible : Legible g h) (ha : a ∈ g) (hb : b ∈ g) :
    Legible g (h.substitute a b) := by
  have declared (c : Char) : c ∈ h.substitute a b ↔ c ∈ h := by
    rw [mem_iff, nonTerminals_substitute (legible.kept a ha), mem_iff]
  refine ⟨fun c hc => ?_, fun c hc => ?_, fun c p hp s hs => ?_, fun c p hp => ?_⟩
  · exact (declared c).2 (legible.kept c hc)
  · exact legible.added c ((declared c).1 hc)
  · rcases mem_alternatives_substitute.1 hp with ⟨hp, _⟩ | ⟨rfl, q, hq, d, hd, rfl⟩
    · exact legible.symbols c p hp s hs
    · rcases List.mem_append.1 hs with hs | hs
      · exact legible.symbols b d hd s hs
      · exact legible.symbols c _ hq s (List.mem_cons_of_mem _ hs)
  · rcases mem_alternatives_substitute.1 hp with ⟨hp, _⟩ | ⟨rfl, q, hq, d, hd, rfl⟩
    · exact legible.whole c p hp
    · exact .inl ((legible.proper hb hd).append (legible.noSign_of_cons_mem ha hq))

theorem splitInto (legible : Legible g h) (ha : a ∈ g) (fresh : h.freshName = .ok helper) :
    Legible g (h.splitInto a helper) := by
  have hh := legible.kept a ha
  have absent := not_mem_of_freshName fresh
  have pool := mem_helperNames_of_freshName fresh
  have other : helper ≠ Symbol.epsilonChar := by
    rintro rfl
    exact absurd pool (by decide)
  have concat {q : Body} (hq : ∀ s ∈ q, s.Legible g.isNonTerminal) :
      ∀ s ∈ q ++ [.nonTerminal helper], s.Legible g.isNonTerminal := by
    intro s hs
    rcases List.mem_append.1 hs with hs | hs
    · exact hq s hs
    · exact List.mem_singleton.1 hs ▸ symbol_legible_of_mem_helperNames pool
  refine ⟨fun c hc => ?_, fun c hc new => ?_, fun c p hp => ?_, fun c p hp => ?_⟩
  · exact (mem_splitInto hh absent).2 (.inl (legible.kept c hc))
  · rcases (mem_splitInto hh absent).1 hc with hc | rfl
    · exact legible.added c hc new
    · exact pool
  · rcases (mem_alternatives_splitInto hh absent).1 hp with
      ⟨_, ⟨q, hq, rfl⟩ | rfl⟩ | ⟨_, q, hq, _, rfl⟩ | ⟨_, _, hp⟩
    · exact concat fun s hs => legible.symbols a _ hq s (List.mem_cons_of_mem _ hs)
    · intro s hs
      have sign : ¬Line.isSeparator Symbol.epsilonChar := by decide
      rw [List.mem_singleton.1 hs]
      exact ⟨sign, .inl rfl⟩
    · exact concat (legible.symbols a q hq)
    · exact legible.symbols c p hp
  · rcases (mem_alternatives_splitInto hh absent).1 hp with
      ⟨rfl, ⟨q, hq, rfl⟩ | rfl⟩ | ⟨_, q, hq, _, rfl⟩ | ⟨_, _, hp⟩
    · exact .inl (Body.proper_concat (legible.noSign_of_cons_mem ha hq) other)
    · exact .inr ⟨fun hc => absent (legible.kept c hc), rfl⟩
    · exact .inl (Body.proper_concat (legible.proper ha hq).noSign other)
    · exact legible.whole c p hp

theorem step (s : Step g.nonTerminals h k) (legible : Legible g h) : Legible g k := by
  cases s with
  | substitute ha hb _ _ => exact legible.substitute ha hb
  | split ha _ _ fresh => exact legible.splitInto ha fresh

theorem isNonTerminal_eq (legible : Legible g h) : h.isNonTerminal = g.isNonTerminal := by
  funext c
  rw [Bool.eq_iff_iff]
  simp only [isNonTerminal, Bool.or_eq_true, decide_eq_true_eq]
  constructor
  · rintro (upper | declared)
    · exact .inl upper
    · by_cases old : c ∈ g
      · exact .inr old
      · exact .inl (isUppercase_of_mem_helperNames (legible.added c declared old))
  · exact Or.imp_right (legible.kept c)

theorem visible (legible : Legible g h) (writable : g.Writable) : ∀ a ∈ h, ¬isBlank a := by
  intro a ha
  by_cases old : a ∈ g
  · exact writable.names a old
  · have apart : helperNames.all (!isBlank ·) := by decide
    simpa using List.all_eq_true.1 apart a (legible.added a ha old)

end Legible

def ArrowFree (g : Grammar) : Prop :=
  ∀ a, ∀ p ∈ g.alternatives a, ¬arrow <:+: p.toChars

instance (g : Grammar) : Decidable g.ArrowFree :=
  decidable_of_iff _ forall_mem_alternatives_iff.symm

def DashAtEnd (g : Grammar) : Prop :=
  ∃ a, ∃ p ∈ g.alternatives a, p.toChars.getLast? = some '-'

/-- Some alternative goes on with the tip of an arrow behind a leading name. -/
def TipBehindName (g : Grammar) : Prop :=
  ∃ a, ∃ p ∈ g.alternatives a, (∃ b, p.StartsWith b) ∧ p.toChars.tail.head? = some '>'

theorem Legible.writable_iff (legible : Legible g h) (writable : g.Writable) :
    h.Writable ↔ h.ArrowFree := by
  have body (a : Char) (p : Body) (hp : p ∈ h.alternatives a) :
      p.Writable h.isNonTerminal ↔ ¬arrow <:+: p.toChars := by
    rw [legible.isNonTerminal_eq]
    apply Body.writable_iff (legible.symbols a p hp)
    exact (legible.whole a p hp).symm.imp_left And.right
  constructor
  · exact fun result a p hp => (result.bodies a p hp).noArrow
  · exact fun free => ⟨legible.visible writable, fun a p hp => (body a p hp).2 (free a p hp)⟩

/-- A rule with an arrow in one of its bodies is on a line with two arrows. -/
theorem malformed_plain {r : Rule} (visible : ¬isBlank r.left) (hp : p ∈ r.alternatives)
    (inside : arrow <:+: p.toChars) : Malformed r.plain := by
  have behind : arrow <:+: r.line.right :=
    inside.trans (List.infix_cons (infix_intercalate (List.mem_map_of_mem hp)))
  have some : arrowCount r.line.right ≠ 0 := fun none => arrowCount_eq_zero_iff.1 none behind
  rw [Rule.plain_eq]
  refine ⟨by simp [visible], .inl ?_⟩
  rw [arrowCount_append_arrow]
  omega

/-- If the text of a result is not read back, it is not read at all. -/
theorem Legible.exists_parse_render_eq_error (legible : Legible g h) (writable : g.Writable)
    (arrows : ¬h.ArrowFree) :
    ∃ n text, parse (h.render .plain) = .error (.malformedLine n text) := by
  have visible : ∀ r ∈ h.rules, ¬isBlank r.left := fun r hr =>
    legible.visible writable r.left (List.mem_map_of_mem hr)
  have unseparated : ∀ r ∈ h.rules, ∀ p ∈ r.alternatives, ∀ s ∈ p, ¬Line.isSeparator s.toChar :=
    forall_mem_alternatives_iff.1 fun a p hp s hs => (legible.symbols a p hp s hs).1
  obtain ⟨r, hr, p, hp, inside⟩ : ∃ r ∈ h.rules, ∃ p ∈ r.alternatives, arrow <:+: p.toChars := by
    rw [ArrowFree, forall_mem_alternatives_iff] at arrows
    simpa using arrows
  have written : r.plain ∈ lines (h.render .plain).toList := by
    rw [lines_render visible unseparated]
    exact List.mem_map_of_mem hr
  have malformed := malformed_plain (visible r hr) hp inside
  obtain ⟨e, reported⟩ := (exists_reportsFirst_iff (n := 1)).2 ⟨r.plain, written, malformed⟩
  have failed := parse_eq_error_iff.2 (result_readLines_eq_error_iff.2 reported)
  obtain ⟨before, cs, _, _, _, _, rfl⟩ := reported
  exact ⟨_, _, failed⟩

/-- The arrows of a grammar `h` on the way from `g` come from a dash at the end of a body of `g` and
a tip behind a leading name of `g`. -/
structure ArrowsTraced (g h : Grammar) : Prop where
  dashes : ∀ a ∈ g, ∀ p ∈ h.alternatives a, p.toChars.getLast? = some '-' → g.DashAtEnd
  tips : ∀ a ∈ g, ∀ b q, .nonTerminal b :: q ∈ h.alternatives a →
    (Body.toChars q).head? = some '>' → g.TipBehindName
  arrows : ∀ a, ∀ p ∈ h.alternatives a, arrow <:+: p.toChars → g.DashAtEnd ∧ g.TipBehindName

namespace ArrowsTraced

theorem start (writable : g.Writable) : ArrowsTraced g g where
  dashes a _ p hp last := ⟨a, p, hp, last⟩
  tips a _ b q hq tip := ⟨a, _, hq, ⟨b, by simp⟩, tip⟩
  arrows a p hp inside := absurd inside (writable.bodies a p hp).noArrow

theorem substitute (traced : ArrowsTraced g h) (legible : Legible g h) (ha : a ∈ g) (hb : b ∈ g) :
    ArrowsTraced g (h.substitute a b) := by
  refine ⟨fun c hc p hp last => ?_, fun c hc x r hr tip => ?_, fun c p hp inside => ?_⟩
  · rcases mem_alternatives_substitute.1 hp with ⟨hp, _⟩ | ⟨rfl, q, hq, d, hd, rfl⟩
    · exact traced.dashes c hc p hp last
    · by_cases none : q = []
      · rw [none, List.append_nil] at last
        exact traced.dashes b hb d hd last
      · rw [Body.getLast?_toChars_append none] at last
        apply traced.dashes c hc _ hq
        rw [← List.singleton_append, Body.getLast?_toChars_append none, last]
  · rcases mem_alternatives_substitute.1 hr with ⟨hr, _⟩ | ⟨rfl, q, hq, d, hd, parts⟩
    · exact traced.tips c hc x r hr tip
    · obtain ⟨first, d, rfl⟩ := List.exists_cons_of_ne_nil (legible.proper hb hd).nonempty
      rw [List.cons_append, List.cons.injEq] at parts
      obtain ⟨rfl, rfl⟩ := parts
      by_cases none : d = []
      · rw [none, List.nil_append] at tip
        exact traced.tips c hc b q hq tip
      · rw [Body.head?_toChars_append none] at tip
        exact traced.tips b hb x d hd tip
  · rcases mem_alternatives_substitute.1 hp with ⟨hp, _⟩ | ⟨rfl, q, hq, d, hd, rfl⟩
    · exact traced.arrows c p hp inside
    · rw [Body.toChars_append, arrow_infix_append_iff] at inside
      rcases inside with inside | inside | ⟨last, first⟩
      · exact traced.arrows b d hd inside
      · exact traced.arrows c _ hq (List.infix_cons inside)
      · exact ⟨traced.dashes b hb d hd last, traced.tips c ha b q hq first⟩

theorem splitInto (traced : ArrowsTraced g h) (legible : Legible g h) (ha : a ∈ g)
    (fresh : h.freshName = .ok helper) : ArrowsTraced g (h.splitInto a helper) := by
  have hh := legible.kept a ha
  have absent := not_mem_of_freshName fresh
  have pool := mem_helperNames_of_freshName fresh
  have noDash : helper ≠ '-' := by
    rintro rfl
    exact absurd pool (by decide)
  have noTip : helper ≠ '>' := by
    rintro rfl
    exact absurd pool (by decide)
  -- The helper is neither half of an arrow.
  have concat {q : Body} (inside : arrow <:+: Body.toChars (q ++ [.nonTerminal helper])) :
      arrow <:+: q.toChars := by
    rw [Body.toChars_append, arrow_infix_append_iff] at inside
    rcases inside with inside | inside | ⟨_, first⟩
    · exact inside
    · exact absurd inside.length_le (by simp [arrow, Body.toChars])
    · exact absurd (Option.some.inj first) noTip
  -- An old name has old alternatives, unless the helper has come behind them.
  have old {c : Char} {p : Body} (hc : c ∈ g) (hp : p ∈ (h.splitInto a helper).alternatives c) :
      p ∈ h.alternatives c ∨ ∃ q ∈ h.alternatives a, p = q ++ [.nonTerminal helper] := by
    rcases (mem_alternatives_splitInto hh absent).1 hp with
      ⟨rfl, _⟩ | ⟨_, q, hq, _, rfl⟩ | ⟨_, _, hp⟩
    · exact absurd (legible.kept c hc) absent
    · exact .inr ⟨q, hq, rfl⟩
    · exact .inl hp
  refine ⟨fun c hc p hp last => ?_, fun c hc x r hr tip => ?_, fun c p hp inside => ?_⟩
  · rcases old hc hp with hp | ⟨q, _, rfl⟩
    · exact traced.dashes c hc p hp last
    · rw [Body.getLast?_toChars_append (List.cons_ne_nil _ _)] at last
      exact absurd (Option.some.inj last) noDash
  · rcases old hc hr with hr | ⟨q, hq, parts⟩
    · exact traced.tips c hc x r hr tip
    · obtain ⟨first, q, rfl⟩ := List.exists_cons_of_ne_nil (legible.proper ha hq).nonempty
      rw [List.cons_append, List.cons.injEq] at parts
      obtain ⟨rfl, rfl⟩ := parts
      by_cases none : q = []
      · rw [none] at tip
        exact absurd (Option.some.inj tip) noTip
      · rw [Body.head?_toChars_append none] at tip
        exact traced.tips a ha x q hq tip
  · rcases (mem_alternatives_splitInto hh absent).1 hp with
      ⟨_, ⟨q, hq, rfl⟩ | rfl⟩ | ⟨_, q, hq, _, rfl⟩ | ⟨_, _, hp⟩
    · exact traced.arrows a _ hq (List.infix_cons (concat inside))
    · exact absurd inside.length_le (by simp [arrow, Body.toChars, Body.epsilon])
    · exact traced.arrows a q hq (concat inside)
    · exact traced.arrows c p hp inside

theorem step (s : Step g.nonTerminals h k) (legible : Legible g h) (traced : ArrowsTraced g h) :
    ArrowsTraced g k := by
  cases s with
  | substitute ha hb _ _ => exact traced.substitute legible ha hb
  | split ha _ _ fresh => exact traced.splitInto legible ha fresh

end ArrowsTraced

theorem legible_and_arrowsTraced (writable : g.Writable) (unsigned : g.NoEpsilonBody)
    (e : g.eliminate = .ok h) : Legible g h ∧ ArrowsTraced g h :=
  eliminate_induction (P := fun k => Legible g k ∧ ArrowsTraced g k) e
    ⟨.start writable unsigned, .start writable⟩ fun s ⟨legible, traced⟩ =>
      ⟨legible.step s, traced.step s legible⟩

/-- If the grammar that was read has no sign of the empty word, the plain text of the result is read
back exactly if no alternative of the result holds an arrow, and otherwise it is not read at all. An
arrow needs an alternative of the input that ends in a dash, and another that goes on with the tip
of an arrow behind its leading name. -/
theorem parse_render_eliminate (read : parse s = .ok g) (unsigned : g.NoEpsilonBody)
    (e : g.eliminate = .ok h) :
    (parse (h.render .plain) = .ok h ↔ h.ArrowFree) ∧
      (¬h.ArrowFree → (∃ n text, parse (h.render .plain) = .error (.malformedLine n text)) ∧
        g.DashAtEnd ∧ g.TipBehindName) := by
  have writable := writable_of_parse read
  obtain ⟨legible, traced⟩ := legible_and_arrowsTraced writable unsigned e
  have result := legible.writable_iff writable
  refine ⟨⟨fun back => ?_, fun free => ?_⟩, fun arrows => ⟨?_, ?_⟩⟩
  · exact result.1 (writable_of_parse back)
  · exact (result.2 free).parse_render
  · exact legible.exists_parse_render_eq_error writable arrows
  · rw [ArrowFree] at arrows
    push Not at arrows
    obtain ⟨a, p, hp, inside⟩ := arrows
    exact traced.arrows a p hp inside

theorem parse_render_eliminate_crossed :
    parse "S -> Sa A\nA -> Sc d" = .ok crossed ∧ crossed.NoEpsilonBody ∧
      crossed.eliminate = .ok crossedFreed ∧ crossedFreed.ArrowFree ∧
        parse (crossedFreed.render .plain) = .ok crossedFreed := by
  have read : parse "S -> Sa A\nA -> Sc d" = .ok crossed := by decide +kernel
  have unsigned : crossed.NoEpsilonBody := by decide
  have free : crossedFreed.ArrowFree := by decide
  exact ⟨read, unsigned, eliminate_crossed, free,
    (parse_render_eliminate read unsigned eliminate_crossed).1.2 free⟩

def pointed : Grammar where
  rules := [⟨'A', ["x-"].map Body.ofString⟩, ⟨'B', ["A>y"].map Body.ofString⟩]
  nodup := by decide

def pointedFreed : Grammar where
  rules := [⟨'A', ["x-"].map Body.ofString⟩, ⟨'B', ["x->y"].map Body.ofString⟩]
  nodup := by decide

/-- The two are joined to an arrow, so the second line of the result is no production. -/
theorem parse_render_pointedFreed :
    parse "A -> x-\nB -> A>y" = .ok pointed ∧ pointed.NoEpsilonBody ∧
      pointed.eliminate = .ok pointedFreed ∧
        parse (pointedFreed.render .plain) = .error (.malformedLine 2 "B -> x->y") ∧
          parse (pointedFreed.render .plain) ≠ .ok pointedFreed := by
  have failed : parse (pointedFreed.render .plain) = .error (.malformedLine 2 "B -> x->y") := by
    decide +kernel
  refine ⟨by decide +kernel, by decide, rfl, failed, ?_⟩
  rw [failed]
  simp

end Grammar

end LeftRecursion
