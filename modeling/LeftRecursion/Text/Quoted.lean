import LeftRecursion.Text.Characters

/-!
# Quoted text

Texts and characters as messages show them: between quotes, on one line, and with nothing invisible
in them. A character that a reader could not see is written by its number.
-/

namespace LeftRecursion.Text

/-- The halfwidth voicing marks. They extend the character before them, yet each fills a cell of its
own and can be seen there. -/
def isHalfwidthMark (c : Char) : Bool :=
  c = '\uff9e' || c = '\uff9f'

/-- Whether a reader could miss `c` or take it for a part of its neighbour. -/
def isHidden (c : Char) : Bool :=
  isGraphemeExtend c && !isHalfwidthMark c || isDefaultIgnorable c || isUnprintable c

def numbered (c : Char) : List Char :=
  ['\\', 'u', '{'] ++ Nat.toDigits 16 c.toNat ++ ['}']

def escape (mark c : Char) : List Char :=
  if c = '\x00' then ['\\', '0']
  else if c = '\t' then ['\\', 't']
  else if c = '\r' then ['\\', 'r']
  else if c = '\n' then ['\\', 'n']
  else if c = '\\' ∨ c = mark then ['\\', c]
  else if isHidden c then numbered c
  else [c]

def quoted (cs : List Char) : List Char :=
  '"' :: cs.flatMap (escape '"') ++ ['"']

def quotedChar (c : Char) : List Char :=
  '\'' :: escape '\'' c ++ ['\'']

example : quoted "a\t\"'\u0301".toList = "\"a\\t\\\"'\\u\x7b301\x7d\"".toList := by decide +kernel
example : quoted "\u3164\uff9e".toList = "\"\\u\x7b3164\x7d\uff9e\"".toList := by decide +kernel
example : quotedChar '\'' = "'\\''".toList := by decide +kernel
example : quotedChar '"' = "'\"'".toList := by decide +kernel

end LeftRecursion.Text
