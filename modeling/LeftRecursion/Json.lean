/-!
# JSON values

The part of JSON that grammars need: texts, lists and records, printed without blanks. To read it, a
text is cut into tokens, between which blanks may stand, and the value is read off the tokens with a
stack of the lists and records that are not closed yet. The reader understands every notation of
JSON for texts, lists and records, whether the printer uses it or not.
-/

namespace LeftRecursion

inductive Json where
  | text (s : String)
  | list (values : List Json)
  | record (fields : List (String × Json))

namespace Json

/-- A character within a JSON string. Only the two marks and the controls below the space need an
escape. -/
def escape (c : Char) : List Char :=
  if c = '"' ∨ c = '\\' then ['\\', c]
  else if c = '\x08' then ['\\', 'b']
  else if c = '\x0c' then ['\\', 'f']
  else if c = '\n' then ['\\', 'n']
  else if c = '\r' then ['\\', 'r']
  else if c = '\t' then ['\\', 't']
  else if c < ' ' then
    ['\\', 'u', '0', '0', Nat.digitChar (c.toNat / 16), Nat.digitChar (c.toNat % 16)]
  else [c]

def quote (cs : List Char) : List Char :=
  '"' :: cs.flatMap escape ++ ['"']

mutual

def printChars : Json → List Char
  | text s => quote s.toList
  | list values => '[' :: [','].intercalate (printList values) ++ [']']
  | record fields => '{' :: [','].intercalate (printFields fields) ++ ['}']

def printList : List Json → List (List Char)
  | [] => []
  | v :: vs => v.printChars :: printList vs

def printFields : List (String × Json) → List (List Char)
  | [] => []
  | (key, v) :: fields => (quote key.toList ++ ':' :: v.printChars) :: printFields fields

end

def print (v : Json) : String :=
  String.ofList v.printChars

theorem printList_eq_map (vs : List Json) : printList vs = vs.map printChars := by
  induction vs with
  | nil => rfl
  | cons v vs ih => rw [printList, ih, List.map_cons]

theorem printFields_eq_map (fields : List (String × Json)) :
    printFields fields = fields.map fun f => quote f.1.toList ++ ':' :: f.2.printChars := by
  induction fields with
  | nil => rfl
  | cons f fields ih => rw [printFields, ih, List.map_cons]

example : quote "a\"\x01\x7f".toList = "\"a\\\"\\u0001\x7f\"".toList := by decide

end Json

namespace Json

inductive Token where
  | openList
  | closeList
  | openRecord
  | closeRecord
  | comma
  | colon
  | text (s : String)
  deriving DecidableEq

def isBlank (c : Char) : Bool :=
  c = ' ' || c = '\t' || c = '\n' || c = '\r'

def punctuation? : Char → Option Token
  | '[' => some .openList
  | ']' => some .closeList
  | '{' => some .openRecord
  | '}' => some .closeRecord
  | ',' => some .comma
  | ':' => some .colon
  | _ => none

def unescape? (c : Char) : Option Char :=
  match c with
  | '"' => some '"'
  | '\\' => some '\\'
  | '/' => some '/'
  | 'b' => some '\x08'
  | 'f' => some '\x0c'
  | 'n' => some '\n'
  | 'r' => some '\r'
  | 't' => some '\t'
  | _ => none

def hexDigit? (c : Char) : Option Nat :=
  if '0' ≤ c && c ≤ '9' then some (c.toNat - '0'.toNat)
  else if 'a' ≤ c && c ≤ 'f' then some (c.toNat - 'a'.toNat + 10)
  else if 'A' ≤ c && c ≤ 'F' then some (c.toNat - 'A'.toNat + 10)
  else none

def hexNumber? (a b c d : Char) : Option Nat := do
  return (((← hexDigit? a) * 16 + (← hexDigit? b)) * 16 + (← hexDigit? c)) * 16 + (← hexDigit? d)

/-- The first halves of surrogate pairs. -/
def isHighSurrogate (n : Nat) : Bool :=
  0xd800 ≤ n && n < 0xdc00

def isLowSurrogate (n : Nat) : Bool :=
  0xdc00 ≤ n && n < 0xe000

def ofSurrogates (high low : Nat) : Char :=
  Char.ofNat (0x10000 + (high - 0xd800) * 0x400 + (low - 0xdc00))

mutual

def tokens? : List Char → Option (List Token)
  | [] => some []
  | c :: cs =>
    if isBlank c then tokens? cs
    else if c = '"' then textTokens? [] none cs
    else do return (← punctuation? c) :: (← tokens? cs)

/-- The tokens from the inside of a quoted text on, of which the characters `done` have been read,
the last one first. If `high` is the first half of a surrogate pair, the second half is due. -/
def textTokens? (done : List Char) (high : Option Nat) : List Char → Option (List Token)
  | [] => none
  | '\\' :: 'u' :: a :: b :: c :: d :: cs => do
    let n ← hexNumber? a b c d
    match high with
    | some m => if isLowSurrogate n then textTokens? (ofSurrogates m n :: done) none cs else none
    | none =>
      if isHighSurrogate n then textTokens? done (some n) cs
      else if isLowSurrogate n then none
      else textTokens? (Char.ofNat n :: done) none cs
  | '\\' :: c :: cs => do
    if high.isSome then none
    else textTokens? ((← unescape? c) :: done) none cs
  | c :: cs =>
    if high.isSome || c < ' ' then none
    else if c = '"' then (tokens? cs).map (.text (String.ofList done.reverse) :: ·)
    else textTokens? (c :: done) none cs

end

/-- A list or record that is not closed, with what it holds before the value that is being read, the
last one first. -/
inductive Frame where
  | list (before : List Json)
  | record (before : List (String × Json)) (key : String)

mutual

/-- The whole value, where a value is due within the frames. -/
def readValue? (frames : List Frame) : List Token → Option Json
  | .text s :: ts => resume? (.text s) frames ts
  | .openList :: .closeList :: ts => resume? (.list []) frames ts
  | .openList :: ts => readValue? (.list [] :: frames) ts
  | .openRecord :: .closeRecord :: ts => resume? (.record []) frames ts
  | .openRecord :: .text key :: .colon :: ts => readValue? (.record [] key :: frames) ts
  | _ => none

def resume? (v : Json) : List Frame → List Token → Option Json
  | [], [] => some v
  | .list before :: frames, .comma :: ts => readValue? (.list (v :: before) :: frames) ts
  | .list before :: frames, .closeList :: ts => resume? (.list (before.reverse ++ [v])) frames ts
  | .record before key :: frames, .comma :: .text next :: .colon :: ts =>
    readValue? (.record ((key, v) :: before) next :: frames) ts
  | .record before key :: frames, .closeRecord :: ts =>
    resume? (.record (before.reverse ++ [(key, v)])) frames ts
  | _, _ => none

end

def read? (s : String) : Option Json := do
  readValue? [] (← tokens? s.toList)

example : tokens? "[ \"\\u0041\\/\" ,\n\"\\ud83d\\ude00\"]".toList =
    some [.openList, .text "A/", .comma, .text "😀", .closeList] := by decide
example : tokens? "\"\\ud83d\"".toList = none := by decide

end Json

end LeftRecursion
