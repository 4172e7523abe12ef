import MailExpert.Lib.Encodings
import MailExpert.Lib.Regex

/-!
# The patterns of the sanitizer

`emailSanitizer.js` goes through a mail with loops of its own where a regular expression would take quadratic time. The modules on them have each
loop beside the pattern that its comment quotes. A text is a list of UTF-16 code units; the patterns are about ASCII letters, and without the flag `u` no other
character is taken for one of them, so `fold` is all that the flag `i` does.
-/

namespace MailExpert.Sanitizer

open Encodings (isSpace)
open Regex Search

abbrev Text := List Nat

def codes (s : String) : Text := s.toList.map Char.toNat

def fold (c : Nat) : Nat := if 65 ≤ c ∧ c ≤ 90 then c + 32 else c

def isWord (c : Nat) : Bool := (48 ≤ c && c ≤ 57) || (65 ≤ c && c ≤ 90) || c = 95 || (97 ≤ c && c ≤ 122)

/-- Literal text under the flag `i`. -/
def ci (word : String) : Regex Nat := lit fold (codes word)

def char (c : Char) : Regex Nat := chr c.toNat

/-- `[^c]*` -/
def till (c : Char) : Regex Nat := non c.toNat

/-- `\s*` -/
def spaces : Regex Nat := star (one isSpace)

def groupText (str : Text) (m : State) (n : Nat) : Text := (m.caps n).elim [] fun range => slice str range.1 range.2

end MailExpert.Sanitizer
