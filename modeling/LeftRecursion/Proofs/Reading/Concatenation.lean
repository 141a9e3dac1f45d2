import LeftRecursion.Proofs.Reading.Meaning
import LeftRecursion.Proofs.Reading.RoundTrip

/-!
# Texts one below the other

A text that stands below another, behind a newline, is read as if it stood alone, but for two
things: its lines have higher numbers, and its characters are classified by the names of both texts.
What is read off the lines before that are their entries (`readEntries`), and those of two texts
follow each other.
-/

namespace LeftRecursion

open Text

variable {cs ds : List Char} {css dss : List (List Char)} {c d : Char} {n m : Nat} {x : Entry}
  {l : Line} {e : Failure}

theorem trim_concat_of_blank (blank : isBlank c) (cs : List Char) : trim (cs ++ [c]) = trim cs := by
  have ends (ds : List Char) : trimEnd (ds ++ [c]) = trimEnd ds := by
    simp [trimEnd, trimStart, blank]
  have start : trimStart (cs ++ [c]) = if trimStart cs = [] then [] else trimStart cs ++ [c] := by
    simp [trimStart, List.dropWhile_append, blank]
  rw [trim, start, trim]
  split
  · next none => rw [none]
  · exact ends _

theorem trim_dropReturn (cs : List Char) : trim (dropReturn cs) = trim cs := by
  rcases dropReturn_cases cs with same | more
  · rw [same]
  · conv_rhs => rw [more]
    exact (trim_concat_of_blank (by decide) _).symm

/-- To declare an entry is to be read as a line that has it. -/
theorem declares_iff : Declares cs x ↔ ∃ l, Line.ofChars? cs = some l ∧ l.entry = x := by
  constructor
  · rintro ⟨left, right, rest, parts, freeLeft, freeRight, first, runs⟩
    have split := splitArrows_eq_pair_iff.2 ⟨parts, freeLeft, freeRight⟩
    refine ⟨⟨x.name, rest, right⟩, Line.ofChars?_eq_some_iff.2 ⟨left, split, first⟩, ?_⟩
    exact Entry.ext rfl runs.words_eq
  · rintro ⟨l, line, rfl⟩
    exact declares_entry line

theorem Declares.dropReturn (declared : Declares cs x) : Declares (dropReturn cs) x := by
  rcases dropReturn_cases cs with same | more
  · rwa [same]
  obtain ⟨left, right, rest, parts, freeLeft, freeRight, first, runs⟩ := declared
  obtain rfl | ⟨right, c, rfl⟩ := List.eq_nil_or_concat' right
  · have last := congrArg List.getLast? (more.symm.trans parts)
    simp [arrow] at last
  · rw [more, ← List.append_assoc] at parts
    obtain ⟨front, same⟩ := List.append_inj' parts rfl
    cases same
    have free : ¬arrow <:+: right := fun inside =>
      freeRight (inside.trans (List.prefix_append right _).isInfix)
    have separator : ['\r'].all Line.isSeparator := by decide
    refine ⟨left, right, rest, front, freeLeft, free, first, runs_iff.2 ?_⟩
    rw [← runs.words_eq, words_append_gap separator]

def readEntries (n : Nat) (css : List (List Char)) : Except Failure (List Entry) :=
  (readLines n css).result.map (List.map Line.entry)

theorem readEntries_eq_error_iff :
    readEntries n css = .error e ↔ (readLines n css).result = .error e := by
  unfold readEntries
  cases (readLines n css).result <;> simp [Except.map]

theorem readEntries_cons_of_blank (blank : cs.all isBlank) :
    readEntries n (cs :: css) = readEntries (n + 1) css := by
  rw [readEntries, readLines_cons_of_blank blank, readEntries]

theorem readEntries_cons_of_none (visible : ¬cs.all isBlank) (none : Line.ofChars? cs = none) :
    readEntries n (cs :: css) = .error (.malformedLine n (String.ofList (trim cs))) := by
  rw [readEntries, result_readLines_cons_of_none visible none]
  rfl

theorem readEntries_cons_of_some (visible : ¬cs.all isBlank) (some : Line.ofChars? cs = some l) :
    readEntries n (cs :: css) = (readEntries (n + 1) css).map (l.entry :: ·) := by
  rw [readEntries, result_readLines_cons_of_some visible some, readEntries]
  cases (readLines (n + 1) css).result <;> rfl

/-- Lines below others are read like any lines, with higher numbers. -/
theorem readEntries_append (n : Nat) (css dss : List (List Char)) :
    readEntries n (css ++ dss) =
      readEntries n css >>= fun xs => (readEntries (n + css.length) dss).map (xs ++ ·) := by
  induction css generalizing n with
  | nil =>
    rw [List.nil_append, List.length_nil, Nat.add_zero]
    show _ = (readEntries n dss).map ([] ++ ·)
    cases readEntries n dss <;> rfl
  | cons cs css ih =>
    have number : n + (cs :: css).length = n + 1 + css.length := by
      rw [List.length_cons]
      omega
    rw [List.cons_append, number]
    by_cases blank : cs.all isBlank
    · rw [readEntries_cons_of_blank blank, readEntries_cons_of_blank blank, ih]
    cases line : Line.ofChars? cs with
    | none =>
      rw [readEntries_cons_of_none blank line, readEntries_cons_of_none blank line]
      rfl
    | some l =>
      rw [readEntries_cons_of_some blank line, readEntries_cons_of_some blank line, ih]
      cases readEntries (n + 1) css with
      | error => rfl
      | ok xs => cases readEntries (n + 1 + css.length) dss <;> rfl

/-- A carriage return at the end of a line is neither read nor reported. -/
theorem readEntries_dropReturn (n : Nat) (cs : List Char) :
    readEntries n [dropReturn cs] = readEntries n [cs] := by
  have blanks := all_isBlank_dropReturn cs
  by_cases blank : cs.all isBlank
  · rw [readEntries_cons_of_blank blank, readEntries_cons_of_blank (blanks.trans blank)]
  have blank' : ¬(dropReturn cs).all isBlank := blanks ▸ blank
  cases line : Line.ofChars? cs with
  | none =>
    have none : Line.ofChars? (dropReturn cs) = none := by
      cases line' : Line.ofChars? (dropReturn cs) with
      | none => rfl
      | some l =>
        obtain ⟨l', read, _⟩ := declares_iff.1 (declares_entry line').of_dropReturn
        rw [line] at read
        cases read
    rw [readEntries_cons_of_none blank line, readEntries_cons_of_none blank' none,
      trim_dropReturn]
  | some l =>
    obtain ⟨l', read, same⟩ := declares_iff.1 (declares_entry line).dropReturn
    rw [readEntries_cons_of_some blank line, readEntries_cons_of_some blank' read, same]

/-- What is read off the lines of a text can be read off its pieces between newlines. -/
theorem readEntries_closeLines (n : Nat) (css : List (List Char)) :
    readEntries n (closeLines css) = readEntries n css := by
  fun_induction closeLines css generalizing n with
  | case1 => rfl
  | case2 =>
    have blank : readEntries n [[]] = readEntries (n + 1) [] := readEntries_cons_of_blank rfl
    exact blank.symm
  | case3 => rfl
  | case4 piece rest _ ih =>
    rw [← List.singleton_append, ← List.singleton_append (l := rest), readEntries_append,
      readEntries_append n [piece], readEntries_dropReturn, List.length_singleton,
      List.length_singleton, ih]

def Failure.further (m : Nat) : Failure → Failure
  | malformedLine number content => malformedLine (number + m) content
  | namesExhausted => namesExhausted

theorem readEntries_further (n m : Nat) (css : List (List Char)) :
    readEntries (n + m) css = (readEntries n css).mapError (Failure.further m) := by
  induction css generalizing n with
  | nil => rfl
  | cons cs css ih =>
    have number : n + m + 1 = n + 1 + m := by omega
    by_cases blank : cs.all isBlank
    · rw [readEntries_cons_of_blank blank, readEntries_cons_of_blank blank, number, ih]
    cases line : Line.ofChars? cs with
    | none =>
      rw [readEntries_cons_of_none blank line, readEntries_cons_of_none blank line]
      rfl
    | some l =>
      rw [readEntries_cons_of_some blank line, readEntries_cons_of_some blank line, number, ih]
      cases readEntries (n + 1) css <;> rfl

def entries (s : String) : Except Failure (List Entry) :=
  readEntries 1 (s.toList.splitOn '\n')

theorem length_splitOn (d : Char) (cs : List Char) : (cs.splitOn d).length = cs.count d + 1 := by
  induction cs with
  | nil => rfl
  | cons c cs ih =>
    rw [List.splitOn_cons_eq_if_modifyHead, List.count_cons]
    split
    · rw [List.length_cons, ih]
    · rw [List.length_modifyHead, ih, Nat.add_zero]

/-- The entries of two texts follow each other. -/
theorem entries_append_newline (s t : String) :
    entries (s ++ "\n" ++ t) = entries s >>= fun xs =>
      ((entries t).mapError (Failure.further (1 + s.toList.count '\n'))).map (xs ++ ·) := by
  have pieces : (s ++ "\n" ++ t).toList.splitOn '\n' =
      s.toList.splitOn '\n' ++ t.toList.splitOn '\n' := by
    rw [String.toList_append, String.toList_append, List.append_assoc]
    exact List.splitOn_append_cons_self _ _
  rw [entries, pieces, readEntries_append, length_splitOn, Nat.add_comm (List.count _ _)]
  simp only [readEntries_further, entries]

theorem eraseDups_concat (cs : List Char) (c : Char) :
    (cs ++ [c]).eraseDups = if c ∈ cs then cs.eraseDups else cs.eraseDups ++ [c] := by
  rw [List.eraseDups_append]
  split
  · next old => simp [List.removeAll, old]
  · next new => simp [List.removeAll, new, List.eraseDups_cons]

theorem eraseDups_append_eraseDups (cs ds : List Char) :
    (cs ++ ds.eraseDups).eraseDups = (cs ++ ds).eraseDups := by
  induction ds using List.reverseRecOn with
  | nil => rfl
  | append_singleton ds d ih =>
    rw [eraseDups_concat, ← List.append_assoc, eraseDups_concat (cs ++ ds)]
    by_cases old : d ∈ ds
    · rw [if_pos old, if_pos (List.mem_append_right _ old), ih]
    · rw [if_neg old, ← List.append_assoc, eraseDups_concat, ih]
      simp only [List.mem_append, List.mem_eraseDups]

theorem eraseDups_eraseDups_append (cs ds : List Char) :
    (cs.eraseDups ++ ds).eraseDups = (cs ++ ds).eraseDups := by
  induction ds using List.reverseRecOn with
  | nil =>
    rw [List.append_nil, List.append_nil]
    exact eraseDups_append_eraseDups [] cs
  | append_singleton ds d ih =>
    rw [← List.append_assoc, ← List.append_assoc, eraseDups_concat, eraseDups_concat, ih]
    simp only [List.mem_append, List.mem_eraseDups]

theorem Body.ofChars_congr {isName isName' : Char → Bool} {w : List Char}
    (wider : ∀ c, isName c → isName' c)
    (kept : ∀ c, .terminal c ∈ Body.ofChars isName w → ¬isName' c) :
    Body.ofChars isName' w = Body.ofChars isName w := by
  unfold ofChars at kept ⊢
  split
  · rfl
  · next several =>
    rw [if_neg several] at kept
    apply List.map_congr_left
    intro c hc
    by_cases name : isName c
    · rw [Symbol.ofChar, if_pos (wider c name), Symbol.ofChar, if_pos name]
    · have here : .terminal c ∈ w.map (Symbol.ofChar isName) :=
        List.mem_map.2 ⟨c, hc, if_neg name⟩
      rw [Symbol.ofChar, if_neg (kept c here), Symbol.ofChar, if_neg name]

namespace Grammar

variable {g h : Grammar} {a b : Char} {names : List Char} {xs ys : List Entry} {s t : String}

def addFrom (h g : Grammar) (names : List Char) : Grammar :=
  names.foldl (fun k a => k.addAlternatives a (h.alternatives a)) g

/-- The alternatives of the names of `h` are added to those of `g`. -/
def append (g h : Grammar) : Grammar :=
  h.addFrom g h.nonTerminals

theorem addFrom_cons (h g : Grammar) (a : Char) (names : List Char) :
    h.addFrom g (a :: names) = h.addFrom (g.addAlternatives a (h.alternatives a)) names := rfl

theorem nonTerminals_addFrom (h g : Grammar) (names : List Char) :
    (h.addFrom g names).nonTerminals = (g.nonTerminals ++ names).eraseDups := by
  induction names generalizing g with
  | nil =>
    rw [List.append_nil]
    exact (eraseDups_eq_self g.nodup_nonTerminals).symm
  | cons a names ih =>
    rw [addFrom_cons, ih, nonTerminals_addAlternatives]
    split
    · next declared => exact (eraseDups_append_cons_of_mem declared _).symm
    · rw [List.append_assoc, List.singleton_append]

theorem alternatives_addFrom (nodup : names.Nodup) :
    (h.addFrom g names).alternatives b =
      g.alternatives b ++ if b ∈ names then h.alternatives b else [] := by
  induction names generalizing g with
  | nil => exact (List.append_nil _).symm
  | cons a names ih =>
    obtain ⟨absent, nodup⟩ := List.nodup_cons.1 nodup
    rw [addFrom_cons, ih nodup, alternatives_addAlternatives]
    by_cases here : b = a
    · subst here
      rw [if_pos rfl, if_neg absent, if_pos (List.mem_cons_self ..), List.append_nil]
    · rw [if_neg here]
      simp only [List.mem_cons, here, false_or]

theorem nonTerminals_append (g h : Grammar) :
    (g.append h).nonTerminals = (g.nonTerminals ++ h.nonTerminals).eraseDups :=
  nonTerminals_addFrom h g h.nonTerminals

theorem alternatives_append (g h : Grammar) (a : Char) :
    (g.append h).alternatives a = g.alternatives a ++ h.alternatives a := by
  rw [append, alternatives_addFrom h.nodup_nonTerminals]
  split
  · rfl
  · next absent => rw [alternatives_of_not_mem absent]

theorem mem_append : a ∈ g.append h ↔ a ∈ g ∨ a ∈ h := by
  rw [mem_iff, nonTerminals_append, List.mem_eraseDups, List.mem_append, ← mem_iff, ← mem_iff]

def TerminalsOutside (g h : Grammar) : Prop :=
  ∀ c ∈ h, ∀ a, ∀ p ∈ g.alternatives a, .terminal c ∉ p

theorem Collects.mem (collects : g.Collects xs) (hx : x ∈ xs) : x.name ∈ g := by
  rw [mem_iff, collects.nonTerminals, List.mem_eraseDups]
  exact List.mem_map_of_mem hx

/-- A terminal is no character that the entries make a non-terminal. -/
theorem Collects.of_terminal (collects : g.Collects xs) {p : Body} {c : Char}
    (hp : p ∈ g.alternatives a) (terminal : .terminal c ∈ p) :
    ¬isUppercase c ∧ ∀ x ∈ xs, x.name ≠ c := by
  rw [collects.alternatives] at hp
  obtain ⟨w, _, rfl⟩ := List.mem_map.1 hp
  obtain ⟨d, same⟩ := (Body.mem_ofChars terminal).resolve_left nofun
  obtain ⟨other, rfl⟩ := Symbol.ofChar_eq_terminal_iff.1 same
  simpa only [Bool.or_eq_true, List.any_eq_true, decide_eq_true_eq, not_or, not_exists, not_and]
    using other

theorem Collects.not_terminal (collects : g.Collects xs) (hx : x ∈ xs) :
    ∀ a, ∀ p ∈ g.alternatives a, .terminal x.name ∉ p := fun _ _ hp terminal =>
  (collects.of_terminal hp terminal).2 x hx rfl

/-- Entries of which none names a terminal do not change the meaning of the texts of others. -/
theorem Collects.alternatives_eq {zs : List Entry} (collects : g.Collects xs)
    (wider : ∀ x ∈ xs, x ∈ zs)
    (outside : ∀ z ∈ zs, ∀ a, ∀ p ∈ g.alternatives a, .terminal z.name ∉ p) (a : Char) :
    g.alternatives a = ((xs.filter (·.name = a)).flatMap Entry.texts).map
      (Body.ofChars fun c => isUppercase c || zs.any (·.name = c)) := by
  rw [collects.alternatives]
  apply List.map_congr_left
  intro w hw
  refine (Body.ofChars_congr (fun c name => ?_) fun c terminal => ?_).symm
  · simp only [Bool.or_eq_true, List.any_eq_true] at name ⊢
    exact name.imp_right fun ⟨x, hx, named⟩ => ⟨x, wider x hx, named⟩
  · have here : Body.ofChars (fun c => isUppercase c || xs.any (·.name = c)) w ∈
        g.alternatives a := by
      rw [collects.alternatives]
      exact List.mem_map_of_mem hw
    simp only [Bool.or_eq_true, List.any_eq_true, decide_eq_true_eq, not_or]
    refine ⟨(collects.of_terminal here terminal).1, ?_⟩
    rintro ⟨z, hz, rfl⟩
    exact outside z hz a _ here terminal

theorem Collects.append (first : g.Collects xs) (second : h.Collects ys)
    (outside : g.TerminalsOutside h) (outside' : h.TerminalsOutside g) :
    (g.append h).Collects (xs ++ ys) where
  nonTerminals := by
    rw [nonTerminals_append, first.nonTerminals, second.nonTerminals, eraseDups_append_eraseDups,
      eraseDups_eraseDups_append, List.map_append]
  alternatives a := by
    have left : ∀ z ∈ xs ++ ys, ∀ a, ∀ p ∈ g.alternatives a, .terminal z.name ∉ p := by
      intro z hz
      rcases List.mem_append.1 hz with hz | hz
      · exact first.not_terminal hz
      · exact outside z.name (second.mem hz)
    have right : ∀ z ∈ xs ++ ys, ∀ a, ∀ p ∈ h.alternatives a, .terminal z.name ∉ p := by
      intro z hz
      rcases List.mem_append.1 hz with hz | hz
      · exact outside' z.name (first.mem hz)
      · exact second.not_terminal hz
    rw [alternatives_append,
      first.alternatives_eq (fun x hx => List.mem_append_left ys hx) left,
      second.alternatives_eq (fun x hx => List.mem_append_right xs hx) right,
      List.filter_append, List.flatMap_append, List.map_append]

theorem parse_eq_error_iff_entries : parse s = .error e ↔ entries s = .error e := by
  rw [parse_eq_error_iff, ← readEntries_eq_error_iff, lines, readEntries_closeLines, entries]

theorem parse_eq_ok_iff_entries : parse s = .ok g ↔ ∃ xs, entries s = .ok xs ∧ g.Collects xs := by
  rw [parse_eq_ok_iff, entries, ← readEntries_closeLines, ← lines, readEntries]
  constructor
  · rintro ⟨ls, read, rfl⟩
    exact ⟨ls.map Line.entry, by rw [read]; rfl, collects_ofLines ls⟩
  · rintro ⟨xs, read, collects⟩
    obtain ⟨ls, lines, rfl⟩ := exists_of_map_eq_ok read
    exact ⟨ls, lines, (collects_ofLines ls).unique collects⟩

/-- Two texts, one below the other, are read as the one grammar behind the other exactly if no
terminal of either is a name of the other. -/
theorem parse_append_newline_eq_ok_iff (read : parse s = .ok g) (read' : parse t = .ok h) :
    parse (s ++ "\n" ++ t) = .ok (g.append h) ↔ g.TerminalsOutside h ∧ h.TerminalsOutside g := by
  constructor
  · intro both
    have kept {a c : Char} {p : Body} (hp : p ∈ (g.append h).alternatives a)
        (hc : c ∈ g.append h) : .terminal c ∉ p := by
      intro terminal
      apply ((writable_of_parse both).bodies a p hp).terminals c terminal
      simp [isNonTerminal, hc]
    constructor
    · intro c hc a p hp
      refine kept (a := a) ?_ (mem_append.2 (.inr hc))
      rw [alternatives_append]
      exact List.mem_append_left _ hp
    · intro c hc a p hp
      refine kept (a := a) ?_ (mem_append.2 (.inl hc))
      rw [alternatives_append]
      exact List.mem_append_right _ hp
  · rintro ⟨outside, outside'⟩
    obtain ⟨xs, first, collects⟩ := parse_eq_ok_iff_entries.1 read
    obtain ⟨ys, second, collects'⟩ := parse_eq_ok_iff_entries.1 read'
    refine parse_eq_ok_iff_entries.2 ⟨xs ++ ys, ?_, collects.append collects' outside outside'⟩
    rw [entries_append_newline, first, second]
    rfl

/-- Some alternative holds the terminal or the non-terminal `c`. The sign for the empty word is
neither. -/
def HasSymbol (g : Grammar) (c : Char) : Prop :=
  ∃ a, ∃ p ∈ g.alternatives a, .terminal c ∈ p ∨ .nonTerminal c ∈ p

instance (g : Grammar) (c : Char) : Decidable (g.HasSymbol c) :=
  decidable_of_iff _ exists_mem_alternatives_iff.symm

theorem terminalsOutside_of_parse (read : parse s = .ok g)
    (apart : ∀ c ∈ h, ¬isUppercase c → ¬g.HasSymbol c) : g.TerminalsOutside h := by
  intro c hc a p hp terminal
  refine apart c hc (fun upper => ?_) ⟨a, p, hp, .inl terminal⟩
  apply ((writable_of_parse read).bodies a p hp).terminals c terminal
  simp [isNonTerminal, upper]

/-- A text behind a newline is read on its own. The failure of the first text is that of both; a
failure of the second comes further down; and if no name of either, the upper-case ones apart, is a
symbol of the other, then the alternatives of the second are added to those of the first. -/
theorem parse_append_newline (s t : String) :
    (∀ e, parse s = .error e → parse (s ++ "\n" ++ t) = .error e) ∧
      (∀ g n content, parse s = .ok g → parse t = .error (.malformedLine n content) →
        parse (s ++ "\n" ++ t) =
          .error (.malformedLine (n + 1 + s.toList.count '\n') content)) ∧
      ∀ g h, parse s = .ok g → parse t = .ok h →
        (∀ c, ¬isUppercase c → (c ∈ g → ¬h.HasSymbol c) ∧ (c ∈ h → ¬g.HasSymbol c)) →
          parse (s ++ "\n" ++ t) = .ok (g.append h) := by
  refine ⟨fun e failed => ?_, fun g n content read failed => ?_, fun g h read read' apart => ?_⟩
  · rw [parse_eq_error_iff_entries] at failed ⊢
    rw [entries_append_newline, failed]
    rfl
  · obtain ⟨xs, first, _⟩ := parse_eq_ok_iff_entries.1 read
    rw [parse_eq_error_iff_entries] at failed ⊢
    rw [entries_append_newline, first, failed, Nat.add_assoc]
    rfl
  · apply (parse_append_newline_eq_ok_iff read read').2
    constructor
    · exact terminalsOutside_of_parse read fun c hc small => (apart c small).2 hc
    · exact terminalsOutside_of_parse read' fun c hc small => (apart c small).1 hc

/-- The last line has no newline behind its carriage return. -/
def upperText : String := "S -> Aa e\r"

def upper : Grammar where
  rules := [⟨'S', ["Aa", "e"].map Body.ofString⟩]
  nodup := by decide

/-- A name of the text above gets another alternative, and a lower-case name is declared late. -/
def lowerText : String := "A -> S|xb\nS -> c\nx -> e"

def lower : Grammar where
  rules := [
    ⟨'A', [[.nonTerminal 'S'], [.nonTerminal 'x', .terminal 'b']]⟩,
    ⟨'S', ["c"].map Body.ofString⟩,
    ⟨'x', ["e"].map Body.ofString⟩]
  nodup := by decide

example : (upper.append lower).rules = [
    ⟨'S', ["Aa", "e", "c"].map Body.ofString⟩,
    ⟨'A', [[.nonTerminal 'S'], [.nonTerminal 'x', .terminal 'b']]⟩,
    ⟨'x', ["e"].map Body.ofString⟩] := by decide

theorem parse_append_newline_upper :
    (parse "S -> a\n x \r" = .error (.malformedLine 2 "x") ∧
      parse ("S -> a\n x \r" ++ "\n" ++ "->") = .error (.malformedLine 2 "x")) ∧
    (parse upperText = .ok upper ∧
      parse "b -> c\n\n->" = .error (.malformedLine 3 "->") ∧
      parse (upperText ++ "\n" ++ "b -> c\n\n->") =
        .error (.malformedLine (3 + 1 + upperText.toList.count '\n') "->")) ∧
    parse lowerText = .ok lower ∧
      (∀ c, ¬isUppercase c →
        (c ∈ upper → ¬lower.HasSymbol c) ∧ (c ∈ lower → ¬upper.HasSymbol c)) ∧
      parse (upperText ++ "\n" ++ lowerText) = .ok (upper.append lower) := by
  have malformed : parse "S -> a\n x \r" = .error (.malformedLine 2 "x") := by decide +kernel
  have arrowAlone : parse "b -> c\n\n->" = .error (.malformedLine 3 "->") := by decide +kernel
  have read : parse upperText = .ok upper := by decide +kernel
  have read' : parse lowerText = .ok lower := by decide +kernel
  have apart : ∀ c, ¬isUppercase c →
      (c ∈ upper → ¬lower.HasSymbol c) ∧ (c ∈ lower → ¬upper.HasSymbol c) := by
    intro c small
    constructor
    · intro hc
      have same : c = 'S' := List.mem_singleton.1 hc
      exact absurd (same ▸ by decide) small
    · intro hc
      have names : c ∈ ['A', 'S', 'x'] := hc
      rw [List.mem_cons, List.mem_cons, List.mem_singleton] at names
      rcases names with rfl | rfl | rfl
      · exact absurd (by decide) small
      · exact absurd (by decide) small
      · decide
  exact ⟨⟨malformed, (parse_append_newline _ "->").1 _ malformed⟩,
    ⟨read, arrowAlone, (parse_append_newline upperText _).2.1 upper 3 "->" read arrowAlone⟩,
    read', apart, (parse_append_newline upperText lowerText).2.2 upper lower read read' apart⟩

end Grammar

end LeftRecursion
