import LeftRecursion.Json
import Mathlib.Data.List.Forall2

/-!
# Printed JSON is read back

The text of a value is cut into the tokens of the value, and these are read as the value. Both are
shown for a text and for tokens that go on behind the value, so that what holds of the members of a
list or record holds of the whole.
-/

namespace LeftRecursion

namespace Json

/-- A property of all values, if lists and records get it from what they hold. -/
@[elab_as_elim]
theorem induction_on {P : Json → Prop} (text : ∀ s, P (.text s))
    (list : ∀ vs, (∀ v ∈ vs, P v) → P (.list vs))
    (record : ∀ fields, (∀ x ∈ fields, P x.2) → P (.record fields)) (v : Json) : P v :=
  @Json.rec P (fun vs => ∀ v ∈ vs, P v) (fun fields => ∀ x ∈ fields, P x.2) (fun x => P x.2)
    text list record
    (fun _ hv => absurd hv List.not_mem_nil)
    (fun _ _ first rest => List.forall_mem_cons.2 ⟨first, rest⟩)
    (fun _ hx => absurd hx List.not_mem_nil)
    (fun _ _ first rest => List.forall_mem_cons.2 ⟨first, rest⟩)
    (fun _ _ value => value) v

mutual

def tokens : Json → List Token
  | text s => [.text s]
  | list values => .openList :: [Token.comma].intercalate (listTokens values) ++ [.closeList]
  | record fields =>
    .openRecord :: [Token.comma].intercalate (fieldTokens fields) ++ [.closeRecord]

def listTokens : List Json → List (List Token)
  | [] => []
  | v :: vs => v.tokens :: listTokens vs

def fieldTokens : List (String × Json) → List (List Token)
  | [] => []
  | (key, v) :: fields => (.text key :: .colon :: v.tokens) :: fieldTokens fields

end

theorem listTokens_eq_map (vs : List Json) : listTokens vs = vs.map tokens := by
  induction vs with
  | nil => rfl
  | cons v vs ih => rw [listTokens, ih, List.map_cons]

theorem fieldTokens_eq_map (fields : List (String × Json)) :
    fieldTokens fields = fields.map fun x => .text x.1 :: .colon :: x.2.tokens := by
  induction fields with
  | nil => rfl
  | cons x fields ih => rw [fieldTokens, ih, List.map_cons]

variable {cs ds : List Char} {ts us : List Token} {c : Char} {t : Token}

/-- The text `cs` is cut into the tokens `ts`, whatever follows it. -/
def Scans (cs : List Char) (ts : List Token) : Prop :=
  ∀ rest, tokens? (cs ++ rest) = (tokens? rest).map (ts ++ ·)

theorem Scans.tokens?_eq (scans : Scans cs ts) : tokens? cs = some ts := by
  simpa [tokens?] using scans []

theorem Scans.append (first : Scans cs ts) (second : Scans ds us) :
    Scans (cs ++ ds) (ts ++ us) := by
  intro rest
  rw [List.append_assoc, first, second, Option.map_map]
  simp [Function.comp_def]

theorem scans_punctuation (token : punctuation? c = some t) : Scans [c] [t] := by
  intro rest
  have visible : isBlank c = false := by
    unfold punctuation? at token
    split at token <;> first | rfl | cases token
  have unquoted : c ≠ '"' := by
    rintro rfl
    cases token
  rw [List.singleton_append, tokens?, visible, if_neg Bool.false_ne_true, if_neg unquoted, token]
  cases tokens? rest <;> rfl

theorem scans_intercalate {css : List (List Char)} {tss : List (List Token)}
    (scans : List.Forall₂ Scans css tss) :
    Scans ([','].intercalate css) ([Token.comma].intercalate tss) := by
  induction scans with
  | nil => intro rest; simp
  | @cons cs ts css tss first later ih =>
    have comma : Scans [','] [.comma] := scans_punctuation rfl
    cases later with
    | nil => simpa using first
    | cons second later =>
      rw [List.intercalate_cons_cons, List.intercalate_cons_cons]
      exact (first.append comma).append ih

/-- A control character is read back from its number. -/
theorem hexNumber?_digitChar :
    ∀ n < 32, hexNumber? '0' '0' (Nat.digitChar (n / 16)) (Nat.digitChar (n % 16)) = some n := by
  decide

/-- A character is read back from its escape. -/
theorem textTokens?_escape (done : List Char) (c : Char) (rest : List Char) :
    textTokens? done none (escape c ++ rest) = textTokens? (c :: done) none rest := by
  unfold escape
  split
  · next mark => rcases mark with rfl | rfl <;> simp [textTokens?, unescape?]
  split
  · next same => simp [textTokens?, unescape?, same]
  split
  · next same => simp [textTokens?, unescape?, same]
  split
  · next same => simp [textTokens?, unescape?, same]
  split
  · next same => simp [textTokens?, unescape?, same]
  split
  · next same => simp [textTokens?, unescape?, same]
  split
  · next control =>
    have small : c.toNat < 32 := control
    have high : isHighSurrogate c.toNat = false := by
      simp [isHighSurrogate]
      omega
    have low : isLowSurrogate c.toNat = false := by
      simp [isLowSurrogate]
      omega
    simp [textTokens?, hexNumber?_digitChar c.toNat small, high, low, Char.ofNat_toNat]
  · next unmarked _ _ _ _ _ visible =>
    rw [not_or] at unmarked
    rw [List.singleton_append, textTokens?]
    · simp [visible, unmarked.1]
    · intro _ _ _ _ _ backslash
      exact absurd backslash unmarked.2
    · intro _ _ backslash
      exact absurd backslash unmarked.2

theorem scans_quote (cs : List Char) : Scans (quote cs) [.text (String.ofList cs)] := by
  have inside (done rest : List Char) : textTokens? done none (cs.flatMap escape ++ '"' :: rest) =
      (tokens? rest).map (.text (String.ofList (done.reverse ++ cs)) :: ·) := by
    induction cs generalizing done with
    | nil => simp [textTokens?]
    | cons c cs ih =>
      rw [List.flatMap_cons, List.append_assoc, textTokens?_escape, ih]
      simp
  intro rest
  have start : isBlank '"' = false := by decide
  rw [quote, List.append_assoc, List.cons_append, tokens?, start]
  simpa using inside [] rest

theorem scans_printChars (v : Json) : Scans v.printChars v.tokens := by
  induction v using induction_on with
  | text s => simpa [printChars, tokens] using scans_quote s.toList
  | list vs ih =>
    have members : List.Forall₂ Scans (vs.map printChars) (vs.map tokens) := by
      rw [List.forall₂_map_left_iff, List.forall₂_map_right_iff, List.forall₂_same]
      exact ih
    rw [printChars, tokens, printList_eq_map, listTokens_eq_map]
    exact (scans_punctuation (c := '[') rfl).append
      ((scans_intercalate members).append (scans_punctuation (c := ']') rfl))
  | record fields ih =>
    have members : List.Forall₂ Scans
        (fields.map fun x => quote x.1.toList ++ ':' :: x.2.printChars)
        (fields.map fun x => .text x.1 :: .colon :: x.2.tokens) := by
      rw [List.forall₂_map_left_iff, List.forall₂_map_right_iff, List.forall₂_same]
      intro x hx
      have name : Scans (quote x.1.toList) [.text x.1] := by simpa using scans_quote x.1.toList
      exact name.append ((scans_punctuation (c := ':') rfl).append (ih x hx))
    rw [printChars, tokens, printFields_eq_map, fieldTokens_eq_map]
    exact (scans_punctuation (c := '{') rfl).append
      ((scans_intercalate members).append (scans_punctuation (c := '}') rfl))

theorem tokens_eq_cons (v : Json) : ∃ t ts, v.tokens = t :: ts ∧ t ≠ .closeList := by
  cases v <;> exact ⟨_, _, rfl, by simp⟩

/-- A list or record that is not closed goes on with a first member. -/
theorem readValue?_openList (frames : List Frame) (v : Json) (ts : List Token) :
    readValue? frames (.openList :: (v.tokens ++ ts)) =
      readValue? (.list [] :: frames) (v.tokens ++ ts) := by
  obtain ⟨t, us, first, other⟩ := tokens_eq_cons v
  rw [first, List.cons_append, readValue?]
  rintro _ ⟨⟩
  exact other rfl

theorem intercalate_comma (first : List Token) (rest : List (List Token)) :
    [Token.comma].intercalate (first :: rest) = first ++ rest.flatMap (.comma :: ·) := by
  induction rest generalizing first with
  | nil => simp
  | cons second rest ih => rw [List.intercalate_cons_cons, ih, List.flatMap_cons]; simp

theorem readValue?_members {vs : List Json} (v : Json)
    (reads : ∀ w ∈ v :: vs, ∀ frames ts, readValue? frames (w.tokens ++ ts) = resume? w frames ts)
    (before : List Json) (frames : List Frame) (ts : List Token) :
    readValue? (.list before :: frames)
        (v.tokens ++ (vs.flatMap (fun w => .comma :: w.tokens) ++ .closeList :: ts)) =
      resume? (.list (before.reverse ++ v :: vs)) frames ts := by
  induction vs generalizing v before with
  | nil =>
    rw [List.flatMap_nil, List.nil_append, reads v (by simp), resume?]
  | cons w vs ih =>
    obtain ⟨first, rest⟩ := List.forall_mem_cons.1 reads
    rw [first, List.flatMap_cons, List.append_assoc, List.cons_append, resume?, ih w rest]
    simp

theorem readValue?_fields {fields : List (String × Json)} (x : String × Json)
    (reads : ∀ y ∈ x :: fields, ∀ frames ts,
      readValue? frames (y.2.tokens ++ ts) = resume? y.2 frames ts)
    (before : List (String × Json)) (frames : List Frame) (ts : List Token) :
    readValue? (.record before x.1 :: frames) (x.2.tokens ++
        (fields.flatMap (fun y => .comma :: .text y.1 :: .colon :: y.2.tokens) ++
          .closeRecord :: ts)) =
      resume? (.record (before.reverse ++ x :: fields)) frames ts := by
  induction fields generalizing x before with
  | nil =>
    rw [List.flatMap_nil, List.nil_append, reads x (by simp), resume?]
  | cons y fields ih =>
    obtain ⟨first, rest⟩ := List.forall_mem_cons.1 reads
    rw [first, List.flatMap_cons, List.append_assoc, List.cons_append, List.cons_append,
      List.cons_append, resume?, ih y rest]
    simp

theorem readValue?_tokens (v : Json) (frames : List Frame) (ts : List Token) :
    readValue? frames (v.tokens ++ ts) = resume? v frames ts := by
  induction v using induction_on generalizing frames ts with
  | text s => rfl
  | list vs ih =>
    rw [tokens, listTokens_eq_map]
    cases vs with
    | nil => rfl
    | cons v vs =>
      have members := readValue?_members v ih [] frames ts
      rw [← readValue?_openList] at members
      simpa [intercalate_comma, List.flatMap_map] using members
  | record fields ih =>
    rw [tokens, fieldTokens_eq_map]
    cases fields with
    | nil => rfl
    | cons x fields =>
      have members := readValue?_fields x ih [] frames ts
      simpa [intercalate_comma, List.flatMap_map, readValue?] using members

/-- A value is read back from its text. -/
theorem read?_print (v : Json) : read? v.print = some v := by
  rw [read?, print, String.toList_ofList, (scans_printChars v).tokens?_eq]
  simpa [resume?] using readValue?_tokens v [] []

end Json

end LeftRecursion
