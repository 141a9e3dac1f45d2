import LeftRecursion.Proofs.Reading.FirstError
import Mathlib.Data.List.Forall2

/-!
# What a text means

A production line makes an entry: a name, and the texts between the separators behind the arrow. The
grammar that is read collects the entries of its lines, so texts that differ in their layout alone
are read as the same grammar.
-/

namespace LeftRecursion

open Text

variable {separates : Char → Bool} {cs ds gap left right piece : List Char} {ws : List (List Char)}
  {c : Char} {l : Line} {ls : List Line}

/-- The longest runs of characters that do not separate, in order. -/
inductive Runs (separates : Char → Bool) : List Char → List (List Char) → Prop
  | none {gap : List Char} : gap.all separates → Runs separates gap []
  | cons {gap run rest : List Char} {runs : List (List Char)} :
      gap.all separates → run ≠ [] → (∀ c ∈ run, ¬separates c) → (∀ c ∈ rest.head?, separates c) →
        Runs separates rest runs → Runs separates (gap ++ run ++ rest) (run :: runs)

theorem words_gap_append (h : gap.all separates) (cs : List Char) :
    words separates (gap ++ cs) = words separates cs := by
  induction gap with
  | nil => rfl
  | cons c gap ih =>
    rw [List.all_cons, Bool.and_eq_true] at h
    have cut := words_append_cons h.1 [] (gap ++ cs)
    exact cut.trans (ih h.2)

theorem words_append_gap (h : gap.all separates) (cs : List Char) :
    words separates (cs ++ gap) = words separates cs := by
  cases gap with
  | nil => rw [List.append_nil]
  | cons c gap =>
    rw [List.all_cons, Bool.and_eq_true] at h
    have none := words_gap_append h.2 []
    rw [List.append_nil] at none
    rw [words_append_cons h.1, none]
    exact List.append_nil _

theorem Runs.words_eq (runs : Runs separates cs ws) : words separates cs = ws := by
  induction runs with
  | none blank => exact words_append_gap blank []
  | @cons gap run rest runs blank nonempty free stop _ ih =>
    rw [List.append_assoc, words_gap_append blank]
    cases rest with
    | nil =>
      rw [List.append_nil, words_eq_singleton nonempty free, ← ih]
      rfl
    | cons c rest =>
      have here : separates c := stop c rfl
      have behind := words_append_cons here [] rest
      rw [words_append_cons here, words_eq_singleton nonempty free, ← ih]
      exact congrArg _ behind.symm

theorem Runs.cons_separator (here : separates c) (runs : Runs separates cs ws) :
    Runs separates (c :: cs) ws := by
  cases runs with
  | none blank => exact .none (by simpa [here] using blank)
  | @cons gap run rest runs blank nonempty free stop later =>
    have blank' : (c :: gap).all separates := by simpa [here] using blank
    exact .cons blank' nonempty free stop later

theorem exists_runs_cons (other : ¬separates c) (runs : Runs separates cs ws) :
    ∃ ws', Runs separates (c :: cs) ws' := by
  have apart (stop : ∀ d ∈ cs.head?, separates d) : ∃ ws', Runs separates (c :: cs) ws' := by
    have longer : Runs separates ([] ++ [c] ++ cs) ([c] :: ws) :=
      .cons rfl (List.cons_ne_nil _ _) (by simpa using other) stop runs
    exact ⟨_, longer⟩
  cases runs with
  | none blank =>
    apply apart
    intro d hd
    exact List.all_eq_true.1 blank d (List.mem_of_mem_head? hd)
  | @cons gap run rest runs blank nonempty free stop later =>
    cases gap with
    | nil =>
      have longer : Runs separates ([] ++ (c :: run) ++ rest) ((c :: run) :: runs) :=
        .cons rfl (List.cons_ne_nil _ _) (List.forall_mem_cons.2 ⟨other, free⟩) stop later
      exact ⟨_, longer⟩
    | cons d gap =>
      apply apart
      rintro _ ⟨⟩
      exact List.all_eq_true.1 blank d (List.mem_cons_self ..)

/-- The words of a text are its runs. -/
theorem runs_iff : Runs separates cs ws ↔ words separates cs = ws := by
  have some (cs : List Char) : ∃ ws, Runs separates cs ws := by
    induction cs with
    | nil => exact ⟨[], .none rfl⟩
    | cons c cs ih =>
      obtain ⟨ws, runs⟩ := ih
      by_cases here : separates c
      · exact ⟨ws, runs.cons_separator here⟩
      · exact exists_runs_cons here runs
  refine ⟨Runs.words_eq, ?_⟩
  rintro rfl
  obtain ⟨ws, runs⟩ := some cs
  rw [runs.words_eq]
  exact runs

@[ext]
structure Entry where
  name : Char
  /-- The texts of the alternatives. -/
  texts : List (List Char)

/-- The line has one arrow, the name of the entry is the first character before it apart from
blanks, and the texts of the entry are the runs behind it. -/
def Declares (cs : List Char) (x : Entry) : Prop :=
  ∃ left right rest, cs = left ++ arrow ++ right ∧ ¬arrow <:+: left ∧ ¬arrow <:+: right ∧
    trim left = x.name :: rest ∧ Runs Line.isSeparator right x.texts

def Line.entry (l : Line) : Entry where
  name := l.name
  texts := words isSeparator l.right

theorem declares_entry (line : Line.ofChars? cs = some l) : Declares cs l.entry := by
  obtain ⟨left, split, first⟩ := Line.ofChars?_eq_some_iff.1 line
  obtain ⟨parts, freeLeft, freeRight⟩ := splitArrows_eq_pair_iff.1 split
  exact ⟨left, l.right, l.rest, parts, freeLeft, freeRight, first, runs_iff.2 rfl⟩

/-- However a production line is cut at an arrow, its entry is read off the two parts. -/
theorem Declares.of_append {x : Entry} (declared : Declares (left ++ arrow ++ right) x) :
    (∃ rest, trim left = x.name :: rest) ∧ words Line.isSeparator right = x.texts := by
  obtain ⟨left', right', rest, parts, freeLeft, freeRight, first, runs⟩ := declared
  have split := splitArrows_eq_pair_iff.2 ⟨parts, freeLeft, freeRight⟩
  have one := arrowCount_eq_one_iff.2 ⟨left', right', split⟩
  rw [splitArrows_eq_pair rfl one] at split
  cases split
  exact ⟨⟨rest, first⟩, runs.words_eq⟩

theorem eraseDups_eq_self {cs : List Char} (nodup : cs.Nodup) : cs.eraseDups = cs := by
  induction cs with
  | nil => rfl
  | cons c cs ih =>
    obtain ⟨absent, nodup⟩ := List.nodup_cons.1 nodup
    have others : cs.filter (fun d => !d == c) = cs := by
      rw [List.filter_eq_self]
      rintro d hd
      have : d ≠ c := by rintro rfl; exact absent hd
      simpa using this
    rw [List.eraseDups_cons, others, ih nodup]

theorem eraseDups_append_cons_of_mem (h : c ∈ cs) (ds : List Char) :
    (cs ++ c :: ds).eraseDups = (cs ++ ds).eraseDups := by
  simp [List.eraseDups_append, List.removeAll, h]

namespace Grammar

variable {g h : Grammar} {s : String} {xs ys : List Entry}

theorem nonTerminals_addLines {isName : Char → Bool} :
    (g.addLines isName ls).nonTerminals = (g.nonTerminals ++ ls.map Line.name).eraseDups := by
  induction ls generalizing g with
  | nil => simpa [addLines] using (eraseDups_eq_self g.nodup_nonTerminals).symm
  | cons l ls ih =>
    rw [addLines_cons, ih, nonTerminals_addAlternatives, List.map_cons]
    split
    · next declared => exact (eraseDups_append_cons_of_mem declared _).symm
    · rw [List.append_assoc, List.singleton_append]

/-- The grammar has the names of the entries in the order in which they first appear, and the
alternatives of a name are the texts of its entries in order. The characters that are upper case or
name an entry are the non-terminals. -/
structure Collects (g : Grammar) (xs : List Entry) : Prop where
  nonTerminals : g.nonTerminals = (xs.map Entry.name).eraseDups
  alternatives : ∀ a, g.alternatives a = ((xs.filter (·.name = a)).flatMap Entry.texts).map
    (Body.ofChars fun c => isUppercase c || xs.any (·.name = c))

theorem Collects.unique (first : g.Collects xs) (second : h.Collects xs) : g = h := by
  apply ext_alternatives
  · rw [first.nonTerminals, second.nonTerminals]
  · intro a _
    rw [first.alternatives, second.alternatives]

theorem collects_ofLines (ls : List Line) : (ofLines ls).Collects (ls.map Line.entry) where
  nonTerminals := by
    rw [ofLines, nonTerminals_addLines, nonTerminals_empty, List.nil_append, List.map_map]
    rfl
  alternatives a := by
    rw [ofLines, alternatives_addLines, alternatives_empty, List.nil_append, List.filter_map,
      List.flatMap_map, List.map_flatMap]
    simp only [List.any_map]
    rfl

/-- A grammar that was read collects the entries of the lines that are not blank. -/
theorem exists_collects_of_parse (read : parse s = .ok g) :
    ∃ xs, List.Forall₂ Declares ((lines s.toList).filter (!·.all isBlank)) xs ∧ g.Collects xs := by
  obtain ⟨ls, productions, rfl⟩ := parse_eq_ok_iff_map.1 read
  refine ⟨ls.map Line.entry, ?_, collects_ofLines ls⟩
  have read : List.Forall₂ (· = ·) (((lines s.toList).filter (!·.all isBlank)).map Line.ofChars?)
      (ls.map some) := by
    rw [productions]
    exact List.forall₂_refl _
  rw [List.forall₂_map_left_iff, List.forall₂_map_right_iff] at read
  rw [List.forall₂_map_right_iff]
  exact read.imp fun _ _ => declares_entry

end Grammar

/-- Two texts that differ in their separators alone. Inside a text, some stand for some. -/
inductive Respaced : List Char → List Char → Prop
  | stop {gap gap' : List Char} : gap.all Line.isSeparator → gap'.all Line.isSeparator →
      Respaced gap gap'
  | keep {c : Char} {cs ds : List Char} : Respaced cs ds → Respaced (c :: cs) (c :: ds)
  | gap {gap gap' cs ds : List Char} : gap ≠ [] → gap' ≠ [] → gap.all Line.isSeparator →
      gap'.all Line.isSeparator → Respaced cs ds → Respaced (gap ++ cs) (gap' ++ ds)

/-- Two production lines that differ in blanks before the name, in what follows the name before the
arrow and in separators alone. A carriage return at the end is such a separator. -/
inductive Alike : List Char → List Char → Prop
  | intro {lead lead' rest rest' start start' right right' : List Char} {name : Char} :
      lead.all isBlank → lead'.all isBlank → ¬isBlank name → start.all Line.isSeparator →
        start'.all Line.isSeparator → Respaced right right' →
          Alike (lead ++ name :: rest ++ arrow ++ (start ++ right))
            (lead' ++ name :: rest' ++ arrow ++ (start' ++ right'))

def visiblePieces (cs : List Char) : List (List Char) :=
  (cs.splitOn '\n').filter (!·.all isBlank)

/-- Two texts that differ in blank lines and in the layout of the others alone. -/
def SameButLayout (cs ds : List Char) : Prop :=
  List.Forall₂ Alike (visiblePieces cs) (visiblePieces ds)

theorem Respaced.words_append_eq (h : Respaced cs ds) (left : List Char) :
    words Line.isSeparator (left ++ cs) = words Line.isSeparator (left ++ ds) := by
  induction h generalizing left with
  | stop blank blank' => rw [words_append_gap blank, words_append_gap blank']
  | @keep c cs ds _ ih => simpa using ih (left ++ [c])
  | @gap gap gap' cs ds some some' blank blank' _ ih =>
    have cut {gap : List Char} (some : gap ≠ []) (blank : gap.all Line.isSeparator)
        (right : List Char) : words Line.isSeparator (left ++ (gap ++ right)) =
          words Line.isSeparator left ++ words Line.isSeparator right := by
      obtain ⟨c, gap, rfl⟩ := List.exists_cons_of_ne_nil some
      rw [List.all_cons, Bool.and_eq_true] at blank
      rw [List.cons_append, words_append_cons blank.1, words_gap_append blank.2]
    rw [cut some blank, cut some' blank']
    exact congrArg _ (ih [])

theorem head?_trim {lead : List Char} {name : Char} (blank : lead.all isBlank)
    (visible : ¬isBlank name) (rest : List Char) :
    (trim (lead ++ name :: rest)).head? = some name := by
  have start : trimStart (lead ++ name :: rest) = name :: rest := by
    rw [trimStart, List.dropWhile_append_of_pos (List.all_eq_true.1 blank),
      List.dropWhile_cons_of_neg visible]
  cases trimmed : trim (lead ++ name :: rest) with
  | nil =>
    have allBlank := List.all_eq_true.1 (trim_eq_nil_iff.1 trimmed)
    exact absurd (allBlank name (by simp)) visible
  | cons c rest' =>
    have first := trim_prefix_trimStart (lead ++ name :: rest)
    rw [trimmed, start, List.cons_prefix_cons] at first
    rw [List.head?_cons, first.1]

theorem Alike.entry_eq {x y : Entry} (alike : Alike cs ds) (first : Declares cs x)
    (second : Declares ds y) : x = y := by
  cases alike with
  | @intro _ _ rest rest' _ _ _ _ name blank blank' visible gap gap' respaced =>
    obtain ⟨⟨_, trimmed⟩, texts⟩ := first.of_append
    obtain ⟨⟨_, trimmed'⟩, texts'⟩ := second.of_append
    have head := head?_trim blank visible rest
    have head' := head?_trim blank' visible rest'
    rw [trimmed, List.head?_cons, Option.some.injEq] at head
    rw [trimmed', List.head?_cons, Option.some.injEq] at head'
    rw [words_gap_append gap] at texts
    rw [words_gap_append gap'] at texts'
    apply Entry.ext
    · rw [head, head']
    · rw [← texts, ← texts']
      exact respaced.words_append_eq []

theorem entries_eq {ps qs : List (List Char)} {xs ys : List Entry} (alike : List.Forall₂ Alike ps qs)
    (first : List.Forall₂ Declares ps xs) (second : List.Forall₂ Declares qs ys) : xs = ys := by
  induction alike generalizing xs ys with
  | nil => cases first; cases second; rfl
  | cons here _ ih =>
    cases first with
    | cons x xs =>
      cases second with
      | cons y ys => rw [here.entry_eq x y, ih xs ys]

theorem all_isBlank_dropReturn (cs : List Char) : (dropReturn cs).all isBlank = cs.all isBlank := by
  rcases dropReturn_cases cs with same | more
  · rw [same]
  · have blank : isBlank '\r' := by decide
    conv_rhs => rw [more]
    simp [blank]

/-- A carriage return at the end of a line separates. -/
theorem Declares.of_dropReturn {x : Entry} (declared : Declares (dropReturn cs) x) :
    Declares cs x := by
  rcases dropReturn_cases cs with same | more
  · rwa [same] at declared
  · obtain ⟨left, right, rest, parts, freeLeft, freeRight, first, runs⟩ := declared
    have separator : ['\r'].all Line.isSeparator := by decide
    have free : ¬arrow <:+: right ++ ['\r'] :=
      not_arrow_infix_append_cons freeRight (by simp) (by decide) (by decide)
    have runs' : Runs Line.isSeparator (right ++ ['\r']) x.texts := by
      rw [runs_iff, words_append_gap separator]
      exact runs.words_eq
    refine ⟨left, right ++ ['\r'], rest, ?_, freeLeft, free, first, runs'⟩
    rw [more, parts, List.append_assoc]

/-- The lines of a text declare what its pieces between newlines declare. -/
theorem declares_of_closeLines {pieces : List (List Char)} {xs : List Entry} :
    List.Forall₂ Declares ((closeLines pieces).filter (!·.all isBlank)) xs →
      List.Forall₂ Declares (pieces.filter (!·.all isBlank)) xs := by
  fun_induction closeLines pieces generalizing xs with
  | case1 => exact id
  | case2 => simp
  | case3 => exact id
  | case4 piece rest _ ih =>
    rw [List.filter_cons, List.filter_cons, all_isBlank_dropReturn]
    split
    · next visible =>
      intro declared
      cases declared with
      | cons first later => exact .cons first.of_dropReturn (ih later)
    · exact ih

namespace Grammar

variable {g : Grammar} {s : String}

/-- A grammar that was read collects the entries of the lines that are not blank, so every text that
is read and differs in its layout alone is read as the same grammar. -/
theorem collects_parse_and_parse_eq_of_sameButLayout (read : parse s = .ok g) :
    (∃ xs, List.Forall₂ Declares ((lines s.toList).filter (!·.all isBlank)) xs ∧ g.Collects xs) ∧
      ∀ t h, parse t = .ok h → SameButLayout s.toList t.toList → h = g := by
  obtain ⟨xs, declared, collects⟩ := exists_collects_of_parse read
  refine ⟨⟨xs, declared, collects⟩, fun t h read' same => ?_⟩
  obtain ⟨ys, declared', collects'⟩ := exists_collects_of_parse read'
  have entries :=
    entries_eq same (declares_of_closeLines declared) (declares_of_closeLines declared')
  rw [← entries] at collects'
  exact collects'.unique collects

def lateText : String := "S -> ab|e\r\n\r\nb->S"

def relaidText : String := "  Sum ->\t| ab \t e\nb -> S\n"

def late : Grammar where
  rules := [
    ⟨'S', [[.terminal 'a', .nonTerminal 'b'], [.epsilon]]⟩,
    ⟨'b', [[.nonTerminal 'S']]⟩]
  nodup := by decide

theorem sameButLayout_relaid : SameButLayout lateText.toList relaidText.toList := by
  have first : Respaced "ab|e\r".toList "ab \t e".toList :=
    have stop : Respaced ['\r'] [] := .stop (by decide) (by decide)
    have gap : Respaced (['|'] ++ ['e', '\r']) ([' ', '\t', ' '] ++ ['e']) :=
      .gap (by decide) (by decide) (by decide) (by decide) (.keep stop)
    .keep (.keep gap)
  have second : Respaced ['S'] ['S'] := .keep (.stop rfl rfl)
  have alike : Alike ([] ++ 'S' :: [' '] ++ arrow ++ ([' '] ++ "ab|e\r".toList))
      ([' ', ' '] ++ 'S' :: ['u', 'm', ' '] ++ arrow ++ (['\t', '|', ' '] ++ "ab \t e".toList)) :=
    .intro rfl (by decide) (by decide) (by decide) (by decide) first
  have alike' : Alike ([] ++ 'b' :: [] ++ arrow ++ ([] ++ ['S']))
      ([] ++ 'b' :: [' '] ++ arrow ++ ([' '] ++ ['S'])) :=
    .intro rfl rfl (by decide) rfl (by decide) second
  exact .cons alike (.cons alike' .nil)

theorem collects_parse_and_parse_eq_of_sameButLayout_late :
    parse lateText = .ok late ∧ SameButLayout lateText.toList relaidText.toList ∧
      (∃ xs, List.Forall₂ Declares ((lines lateText.toList).filter (!·.all isBlank)) xs ∧
        late.Collects xs) ∧
      ∃ h, parse relaidText = .ok h ∧ h = late := by
  have read : parse lateText = .ok late := by decide +kernel
  have relaid : parse relaidText = .ok late := by decide +kernel
  obtain ⟨collects, same⟩ := collects_parse_and_parse_eq_of_sameButLayout read
  exact ⟨read, sameButLayout_relaid, collects, late, relaid,
    same relaidText late relaid sameButLayout_relaid⟩

end Grammar

end LeftRecursion
