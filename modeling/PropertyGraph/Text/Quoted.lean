import PropertyGraph.Text.Case
import PropertyGraph.Text.PrintableTable

/-!
# Quoted text

The form in which a message shows a text: between double quotes, with the usual short escapes, and
with every character that has no glyph of its own as `\u` and its code point in braces.
-/

namespace PropertyGraph.Text

/-- Does the character print a glyph of its own? -/
def isPrintable (c : Char) : Bool :=
  if c.toNat < 128 then 32 ≤ c.toNat && c.toNat < 127
  else !inRanges unprintableRanges c.toNat && !inRanges extenderRanges c.toNat

/-- A code point in lower case hexadecimal between braces, after `\u`. -/
def escapeCodePoint (c : Char) : List Char :=
  ['\\', 'u', '\x7b'] ++ Nat.toDigits 16 c.toNat ++ ['\x7d']

/-- One character as it stands between the quotes. -/
def escapeChar (c : Char) : List Char :=
  if c == '\x00' then ['\\', '0']
  else if c == '\t' then ['\\', 't']
  else if c == '\r' then ['\\', 'r']
  else if c == '\n' then ['\\', 'n']
  else if c == '\x22' || c == '\\' then ['\\', c]
  else if isPrintable c then [c]
  else escapeCodePoint c

/-- The text between double quotes. -/
def quoted (s : String) : String :=
  String.ofList (['\x22'] ++ s.toList.flatMap escapeChar ++ ['\x22'])

end PropertyGraph.Text
