/-
A text between quotation marks, with everything that cannot be shown written as an escape.

The tab, the two line ends, the NUL, the quotation mark and the backslash have short escapes. Any other character that
is not printable is written by its code point, as \u, an opening brace, the hexadecimal digits and a closing brace.
-/
import SecureEndpoint.Text.Printable

namespace SecureEndpoint.Text

/-- the hexadecimal digits of a number, lower case, without leading zeros -/
def hex (n : Nat) : String := String.ofList (Nat.toDigits 16 n)

/-- a number as two hexadecimal digits -/
def hexByte (n : Nat) : String := if n < 16 then "0" ++ hex n else hex n

/-- a character as it stands inside quotation marks -/
def escapeChar (c : Char) : String :=
  match c with
  | '\x00' => "\\0"
  | '\t' => "\\t"
  | '\r' => "\\r"
  | '\n' => "\\n"
  | '"' => "\\\""
  | '\\' => "\\\\"
  | _ => if isPrintable c then c.toString else "\\u\x7b" ++ hex c.toNat ++ "\x7d"

/-- a text between quotation marks -/
def quote (s : String) : String := "\"" ++ String.join (s.toList.map escapeChar) ++ "\""

/-- texts joined by a separator -/
def joinWith (sep : String) (xs : List String) : String := sep.intercalate xs

end SecureEndpoint.Text
