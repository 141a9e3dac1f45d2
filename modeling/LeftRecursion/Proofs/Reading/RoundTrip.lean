import LeftRecursion.Proofs.Reading.Lines
import LeftRecursion.Rendering

/-!
# Plain text is read back

A grammar is read back from its plain text exactly if it is writable, and every grammar that is read
is writable. The conditions say that no text in it is cut in the wrong place and that the character
of a symbol tells its kind.
-/

namespace LeftRecursion

open Text

variable {isName : Char → Bool} {p : Body} {w : List Char} {c : Char}

theorem map_eq_self {α : Type} {f : α → α} {xs : List α} (h : ∀ x ∈ xs, f x = x) :
    xs.map f = xs := by
  rw [List.map_congr_left h, List.map_id']

namespace Body

/-- The body is read from its text, if `isName` says which characters are non-terminals. -/
structure Writable (isName : Char → Bool) (p : Body) : Prop where
  nonempty : p ≠ []
  emptyWord : p = epsilon ∨ .epsilon ∉ p ∧ p.toChars ≠ [Symbol.epsilonChar]
  unseparated : ∀ s ∈ p, ¬Line.isSeparator s.toChar
  noArrow : ¬arrow <:+: p.toChars
  nonTerminals : ∀ c, .nonTerminal c ∈ p → isName c
  terminals : ∀ c, .terminal c ∈ p → ¬isName c

theorem Writable.ofChars_toChars (h : p.Writable isName) : ofChars isName p.toChars = p := by
  rcases h.emptyWord with rfl | ⟨noSign, several⟩
  · rfl
  have same : ∀ s ∈ p, Symbol.ofChar isName s.toChar = s := by
    intro s hs
    cases s with
    | nonTerminal c => exact if_pos (h.nonTerminals c hs)
    | terminal c => exact if_neg (h.terminals c hs)
    | epsilon => exact absurd hs noSign
  rw [ofChars, if_neg several, toChars, List.map_map]
  exact map_eq_self same

theorem mem_ofChars {s : Symbol} (h : s ∈ ofChars isName w) :
    s = .epsilon ∨ ∃ c, Symbol.ofChar isName c = s := by
  unfold ofChars at h
  split at h
  · exact .inl (List.mem_singleton.1 h)
  · obtain ⟨c, _, same⟩ := List.mem_map.1 h
    exact .inr ⟨c, same⟩

theorem writable_ofChars (nonempty : w ≠ []) (unseparated : ∀ c ∈ w, ¬Line.isSeparator c)
    (noArrow : ¬arrow <:+: w) : (ofChars isName w).Writable isName where
  nonempty := by simpa using nonempty
  emptyWord := by
    by_cases lone : w = [Symbol.epsilonChar]
    · exact .inl (if_pos lone)
    · refine .inr ⟨?_, by simpa using lone⟩
      rw [ofChars, if_neg lone]
      simp
  unseparated s hs := by
    apply unseparated
    rw [← toChars_ofChars isName w]
    exact List.mem_map_of_mem hs
  noArrow := by
    rw [toChars_ofChars]
    exact noArrow
  nonTerminals c hc := by
    obtain ⟨d, same⟩ := (mem_ofChars hc).resolve_left (by simp)
    obtain ⟨name, rfl⟩ := Symbol.ofChar_eq_nonTerminal_iff.1 same
    exact name
  terminals c hc := by
    obtain ⟨d, same⟩ := (mem_ofChars hc).resolve_left (by simp)
    obtain ⟨other, rfl⟩ := Symbol.ofChar_eq_terminal_iff.1 same
    exact other

end Body

namespace Grammar

variable {g : Grammar} {ls : List Line} {s : String}

structure Writable (g : Grammar) : Prop where
  names : ∀ a ∈ g, ¬isBlank a
  bodies : ∀ a, ∀ p ∈ g.alternatives a, p.Writable g.isNonTerminal

theorem writable_of_mem_alternatives {l : Line} {cs : List Char} (line : Line.ofChars? cs = some l)
    (hp : p ∈ l.alternatives isName) : p.Writable isName := by
  obtain ⟨left, split, _⟩ := Line.ofChars?_eq_some_iff.1 line
  obtain ⟨w, hw, rfl⟩ := List.mem_map.1 hp
  obtain ⟨inside, unseparated⟩ := of_mem_words hw
  have noArrow := (splitArrows_eq_pair_iff.1 split).2.2
  apply Body.writable_ofChars (ne_nil_of_mem_words hw) unseparated
  intro within
  exact noArrow (within.trans inside)

theorem writable_ofLines (lines : ∀ l ∈ ls, ∃ cs, Line.ofChars? cs = some l) :
    (ofLines ls).Writable where
  names a ha := by
    obtain ⟨l, hl, rfl⟩ := mem_ofLines.1 ha
    obtain ⟨cs, line⟩ := lines l hl
    obtain ⟨left, _, first⟩ := Line.ofChars?_eq_some_iff.1 line
    exact not_isBlank_of_trim first
  bodies a p hp := by
    rw [ofLines_eq_addLines, alternatives_addLines, alternatives_empty, List.nil_append,
      List.mem_flatMap] at hp
    obtain ⟨l, hl, hp⟩ := hp
    obtain ⟨cs, line⟩ := lines l (List.mem_filter.1 hl).1
    exact writable_of_mem_alternatives line hp

theorem writable_of_parse (h : parse s = .ok g) : g.Writable := by
  obtain ⟨ls, lines, rfl⟩ := parse_eq_ok_iff_map.1 h
  apply writable_ofLines
  intro l hl
  have mem : some l ∈ ls.map some := List.mem_map_of_mem hl
  rw [← lines] at mem
  obtain ⟨cs, _, line⟩ := List.mem_map.1 mem
  exact ⟨cs, line⟩

end Grammar

namespace Rule

variable {r : Rule}

def line (r : Rule) : Line where
  name := r.left
  rest := []
  right := ' ' :: [' '].intercalate (r.alternatives.map Body.toChars)

theorem plain_eq (r : Rule) : r.plain = [r.left, ' '] ++ arrow ++ r.line.right := by
  simp [plain, line, arrow]

theorem ofChars?_plain (visible : ¬isBlank r.left)
    (writable : ∀ p ∈ r.alternatives, p.Writable isName) :
    Line.ofChars? r.plain = some r.line := by
  refine Line.ofChars?_eq_some_iff.2 ⟨[r.left, ' '], ?_, ?_⟩
  · have freeLeft : ¬arrow <:+: [r.left, ' '] := by
      simp [arrow, List.infix_cons_iff]
    have freeTexts : ∀ w ∈ r.alternatives.map Body.toChars, ¬arrow <:+: w := by
      intro w hw
      obtain ⟨p, hp, rfl⟩ := List.mem_map.1 hw
      exact (writable p hp).noArrow
    have freeRight : ¬arrow <:+: r.line.right :=
      not_arrow_infix_cons (by decide)
        (not_arrow_infix_intercalate freeTexts (by decide) (by decide))
    exact splitArrows_eq_pair_iff.2 ⟨plain_eq r, freeLeft, freeRight⟩
  · have space : isBlank ' ' := by decide
    simp [trim, trimEnd, trimStart, visible, space, line]

theorem alternatives_line (writable : ∀ p ∈ r.alternatives, p.Writable isName) :
    r.line.alternatives isName = r.alternatives := by
  have free : ∀ w ∈ r.alternatives.map Body.toChars,
      w ≠ [] ∧ ∀ c ∈ w, ¬Line.isSeparator c := by
    intro w hw
    obtain ⟨p, hp, rfl⟩ := List.mem_map.1 hw
    refine ⟨by simpa [Body.toChars] using (writable p hp).nonempty, fun c hc => ?_⟩
    obtain ⟨s, hs, rfl⟩ := List.mem_map.1 hc
    exact (writable p hp).unseparated s hs
  have space : Line.isSeparator ' ' := by decide
  have read : words Line.isSeparator r.line.right = r.alternatives.map Body.toChars := by
    rw [line, ← List.nil_append (' ' :: _), words_append_cons space, words_intercalate space free]
    rfl
  rw [Line.alternatives, read, List.map_map]
  apply map_eq_self
  intro p hp
  exact (writable p hp).ofChars_toChars

/-- The only blanks that are written are spaces. -/
theorem eq_space_of_mem_plain (visible : ¬isBlank r.left)
    (unseparated : ∀ p ∈ r.alternatives, ∀ s ∈ p, ¬Line.isSeparator s.toChar)
    (hc : c ∈ r.plain) (blank : isBlank c) : c = ' ' := by
  rw [plain_eq, List.mem_append, List.mem_append] at hc
  rcases hc with (hc | hc) | hc
  · rcases List.mem_cons.1 hc with rfl | hc
    · exact absurd blank visible
    · exact List.mem_singleton.1 hc
  · simp only [arrow, List.mem_cons, List.not_mem_nil, or_false] at hc
    rcases hc with rfl | rfl <;> exact absurd blank (by decide)
  · rcases List.mem_cons.1 hc with rfl | hc
    · rfl
    rcases mem_intercalate hc with hc | ⟨w, hw, hc⟩
    · exact List.mem_singleton.1 hc
    obtain ⟨p, hp, rfl⟩ := List.mem_map.1 hw
    obtain ⟨s, hs, rfl⟩ := List.mem_map.1 hc
    have apart := unseparated p hp s hs
    simp [Line.isSeparator, blank] at apart

end Rule

namespace Grammar

variable {g : Grammar} {r : Rule}

theorem Writable.visible (h : g.Writable) (hr : r ∈ g.rules) : ¬isBlank r.left :=
  h.names r.left (List.mem_map_of_mem hr)

theorem Writable.rule (h : g.Writable) (hr : r ∈ g.rules) :
    ∀ p ∈ r.alternatives, p.Writable g.isNonTerminal :=
  forall_mem_alternatives_iff.1 h.bodies r hr

/-- Every rule is on a line of its own, whatever else is wrong with the bodies. -/
theorem lines_render (visible : ∀ r ∈ g.rules, ¬isBlank r.left)
    (unseparated : ∀ r ∈ g.rules, ∀ p ∈ r.alternatives, ∀ s ∈ p, ¬Line.isSeparator s.toChar) :
    lines (g.render .plain).toList = g.rules.map Rule.plain := by
  have space {c : Char} {cs : List Char} (hcs : cs ∈ g.rules.map Rule.plain) (hc : c ∈ cs)
      (blank : isBlank c) : c = ' ' := by
    obtain ⟨r, hr, rfl⟩ := List.mem_map.1 hcs
    exact Rule.eq_space_of_mem_plain (visible r hr) (unseparated r hr) hc blank
  rw [render, String.toList_ofList, plain]
  refine lines_intercalate (fun cs hcs newline => ?_) fun cs hcs => ⟨?_, fun last => ?_⟩
  · exact absurd (space hcs newline (by decide)) (by decide)
  · obtain ⟨r, _, rfl⟩ := List.mem_map.1 hcs
    exact List.cons_ne_nil _ _
  · exact absurd (space hcs (List.mem_of_getLast? last) (by decide)) (by decide)

theorem Writable.lines_render (h : g.Writable) :
    lines (g.render .plain).toList = g.rules.map Rule.plain :=
  Grammar.lines_render (fun _ hr => h.visible hr) fun _ hr p hp => (h.rule hr p hp).unseparated

theorem Writable.ofLines_line (h : g.Writable) : ofLines (g.rules.map Rule.line) = g := by
  have names : (g.rules.map Rule.line).map Line.name = g.nonTerminals := by
    rw [List.map_map]
    rfl
  have same : (ofLines (g.rules.map Rule.line)).isNonTerminal = g.isNonTerminal := by
    funext c
    have mem : c ∈ ofLines (g.rules.map Rule.line) ↔ c ∈ g := by
      rw [mem_ofLines, mem_iff, ← names, List.mem_map]
    simp [isNonTerminal, mem]
  rw [ofLines_eq_addLines, same]
  apply Grammar.ext
  rw [rules_addLines (by simpa [names] using g.nodup_nonTerminals), List.map_map]
  refine (List.nil_append _).trans (map_eq_self ?_)
  intro r hr
  rw [Function.comp_apply, Rule.alternatives_line (h.rule hr)]
  rfl

theorem Writable.parse_render (h : g.Writable) : parse (g.render .plain) = .ok g := by
  refine parse_eq_ok_iff_map.2 ⟨g.rules.map Rule.line, ?_, h.ofLines_line⟩
  have visible : ∀ cs ∈ g.rules.map Rule.plain, (!cs.all isBlank) = true := by
    intro cs hcs
    obtain ⟨r, hr, rfl⟩ := List.mem_map.1 hcs
    simp [Rule.plain_eq, h.visible hr]
  rw [h.lines_render, List.filter_eq_self.2 visible, List.map_map, List.map_map]
  exact List.map_congr_left fun r hr => Rule.ofChars?_plain (h.visible hr) (h.rule hr)

/-- Plain text is read back as the grammar it was written for exactly if that grammar is writable,
and whatever is read is writable. -/
theorem parse_render_iff_writable :
    (∀ g : Grammar, parse (g.render .plain) = .ok g ↔ g.Writable) ∧
      ∀ s g, parse s = .ok g → g.Writable ∧ parse (g.render .plain) = .ok g := by
  refine ⟨fun g => ⟨writable_of_parse, Writable.parse_render⟩, fun s g h => ?_⟩
  have writable := writable_of_parse h
  exact ⟨writable, writable.parse_render⟩

def nestedText : String := "s->(s)|\r\ns -> e"

def nested : Grammar where
  rules := [⟨'s', [[.terminal '(', .nonTerminal 's', .terminal ')'], [.epsilon]]⟩]
  nodup := by decide

theorem parse_render_iff_writable_nested :
    parse nestedText = .ok nested ∧ nested.Writable ∧
      parse (nested.render .plain) = .ok nested :=
  ⟨rfl, parse_render_iff_writable.2 nestedText nested rfl⟩

end Grammar

end LeftRecursion
