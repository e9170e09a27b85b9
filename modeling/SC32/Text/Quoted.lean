import SC32.Text.Unprintable

/-!
Texts in double quotes. Quotes, backslashes and characters that would not show are escaped, so that
the quoted form stays on one line.
-/
namespace SC32.Text

def hexadecimal (n : Nat) : String := String.ofList (Nat.toDigits 16 n)

/-- Whether a character is written as its code point. -/
def needsCode (c : Char) : Bool :=
  c.toNat < 0x20 || c.toNat == 0x7F || (0x80 ≤ c.toNat && isUnprintable c)

def escape (c : Char) : String :=
  if c = '"' then "\\\""
  else if c = '\\' then "\\\\"
  else if c = '\n' then "\\n"
  else if c = '\r' then "\\r"
  else if c = '\t' then "\\t"
  else if c = '\x00' then "\\0"
  else if needsCode c then "\\u\x7b" ++ hexadecimal c.toNat ++ "\x7d"
  else String.ofList [c]

def quoted (s : String) : String :=
  "\"" ++ String.join (s.toList.map escape) ++ "\""

end SC32.Text
