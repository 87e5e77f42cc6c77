/-
Writing texts as JSON. Only the quotation mark, the backslash and the control characters are escaped; the common ones
have short escapes, the others are written as four hexadecimal digits.
-/
import SecureEndpoint.Text.Quoted

namespace SecureEndpoint.Json

/-- a character inside a JSON string -/
def escapeJsonChar (c : Char) : String :=
  match c with
  | '"' => "\\\""
  | '\\' => "\\\\"
  | '\n' => "\\n"
  | '\r' => "\\r"
  | '\t' => "\\t"
  | '\x08' => "\\b"
  | '\x0c' => "\\f"
  | _ => if c.toNat < 0x20 then "\\u00" ++ Text.hexByte c.toNat else c.toString

/-- a JSON string -/
def quoteJson (s : String) : String := "\"" ++ String.join (s.toList.map escapeJsonChar) ++ "\""

/-- an object of texts, its members in the given order -/
def textObject (members : List (String × String)) : String :=
  "\x7b" ++ Text.joinWith "," (members.map fun m => quoteJson m.1 ++ ":" ++ quoteJson m.2) ++ "\x7d"

end SecureEndpoint.Json
