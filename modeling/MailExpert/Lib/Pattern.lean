import Mathlib

/-!
# Text patterns

The regular expressions a program searches error texts with: alternatives of literal text, `.?` and
`.*`, with or without regard to the case of ASCII letters. `test` is a search anywhere in the text.
-/

namespace Pattern

inductive Token
  | text (s : String)
  /-- `.?` -/
  | optional
  /-- `.*` -/
  | gap

/-- The characters that `.` does not match. -/
def isLineEnd (c : Char) : Bool := c = '\n' ∨ c = '\r' ∨ c = '\u2028' ∨ c = '\u2029'

/-- What may be left of the text after `.*`. -/
def gaps : List Char → List (List Char)
  | [] => [[]]
  | c :: cs => (c :: cs) :: if isLineEnd c then [] else gaps cs

def fold (ignoreCase : Bool) (c : Char) : Char := if ignoreCase then c.toLower else c

def startsAt (ignoreCase : Bool) : List Token → List Char → Bool
  | [], _ => true
  | .text s :: ts, cs => (s.toList.map (fold ignoreCase)).isPrefixOf cs &&
    startsAt ignoreCase ts (cs.drop s.length)
  | .optional :: ts, cs => startsAt ignoreCase ts cs || match cs with
    | c :: cs => !isLineEnd c && startsAt ignoreCase ts cs
    | [] => false
  | .gap :: ts, cs => (gaps cs).any (startsAt ignoreCase ts)

/-- Whether one of the alternatives matches somewhere in the text. -/
def test (ignoreCase : Bool) (alternatives : List (List Token)) (s : String) : Bool :=
  (s.toList.map (fold ignoreCase)).tails.any fun cs =>
    alternatives.any fun ts => startsAt ignoreCase ts cs

def words (texts : List String) : List (List Token) := texts.map fun s => [.text s]

end Pattern
