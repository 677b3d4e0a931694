import CoopKernel.Text.Number
import CoopKernel.Text.Unprintable

/-!
# Quoted text

Summaries show text between double quotes. Inside, a quote and a backslash are written after a
backslash, the usual control characters have one-letter forms, and any other character without a
glyph is written by its number.
-/

namespace CoopKernel.Text

/-- The number of a character: lower-case hexadecimal between braces, without leading zeros. -/
def numbered (c : Char) : String :=
  "\\u\x7b" ++ String.ofList (Nat.toDigits 16 c.toNat) ++ "\x7d"

/-- One character inside quotes. -/
def quotedChar (c : Char) : String :=
  if c = '\x00' then "\\0"
  else if c = '\t' then "\\t"
  else if c = '\n' then "\\n"
  else if c = '\r' then "\\r"
  else if c = '"' then "\\\""
  else if c = '\\' then "\\\\"
  else if unprintable c then numbered c
  else c.toString

/-- The text between double quotes. -/
def quoted (text : String) : String :=
  "\"" ++ String.join (text.toList.map quotedChar) ++ "\""

end CoopKernel.Text
