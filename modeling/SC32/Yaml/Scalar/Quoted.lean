import SC32.Yaml.Scalar.Gap

/-!
Scalars in single quotes, where a quote is written twice, and in double quotes, where a backslash
escapes.
-/
namespace SC32.Yaml

/-- The value of a hexadecimal digit. -/
def hexDigit? (c : Char) : Option Nat :=
  if c.isDigit then some (c.toNat - '0'.toNat)
  else if 'a' ≤ c && c ≤ 'f' then some (c.toNat - 'a'.toNat + 10)
  else if 'A' ≤ c && c ≤ 'F' then some (c.toNat - 'A'.toNat + 10)
  else none

/-- The character whose code is written with `n` hexadecimal digits. -/
def codePoint? (n : Nat) (cs : List Char) : Option Char := do
  let ds ← (cs.take n).mapM hexDigit?
  let code := ds.foldl (16 * · + ·) 0
  if ds.length = n && code.isValidChar then some (Char.ofNat code) else none

/-- What stands behind a backslash, and how many characters it takes. -/
def escape? : List Char → Option (Char × Nat)
  | '0' :: _ => some ('\x00', 1)
  | 'a' :: _ => some ('\x07', 1)
  | 'b' :: _ => some ('\x08', 1)
  | 't' :: _ => some ('\t', 1)
  | '\t' :: _ => some ('\t', 1)
  | 'n' :: _ => some ('\n', 1)
  | 'v' :: _ => some ('\x0b', 1)
  | 'f' :: _ => some ('\x0c', 1)
  | 'r' :: _ => some ('\r', 1)
  | 'e' :: _ => some ('\x1b', 1)
  | ' ' :: _ => some (' ', 1)
  | '"' :: _ => some ('"', 1)
  | '/' :: _ => some ('/', 1)
  | '\\' :: _ => some ('\\', 1)
  | 'N' :: _ => some ('\u0085', 1)
  | '_' :: _ => some ('\u00a0', 1)
  | 'L' :: _ => some ('\u2028', 1)
  | 'P' :: _ => some ('\u2029', 1)
  | 'x' :: cs => (codePoint? 2 cs).map (·, 3)
  | 'u' :: cs => (codePoint? 4 cs).map (·, 5)
  | 'U' :: cs => (codePoint? 8 cs).map (·, 9)
  | _ => none

/-- The rest of a scalar in single quotes. -/
def singleQuoted : (fuel : Nat) → Cursor → Option (List Char × Cursor)
  | 0, _ => none
  | n + 1, c =>
    match c.rest with
    | [] => none
    | '\'' :: '\'' :: _ => (singleQuoted n (c.drop 2)).map fun (more, d) => ('\'' :: more, d)
    | '\'' :: _ => some ([], c.advance)
    | x :: _ =>
      if isGap x then
        let (gap, d) := c.gap
        if d.marksDocument then none
        else (singleQuoted n d).map fun (more, e) => (gap.folded ++ more, e)
      else
        let (word, d) := c.span fun y => ! isGap y && y != '\''
        (singleQuoted n d).map fun (more, e) => (word ++ more, e)

/-- The rest of a scalar in double quotes. Behind an escaped line break each further one stands for
itself. -/
def doubleQuoted : (fuel : Nat) → Cursor → Option (List Char × Cursor)
  | 0, _ => none
  | n + 1, c =>
    match c.rest with
    | [] => none
    | '"' :: _ => some ([], c.advance)
    | ['\\'] => none
    | '\\' :: x :: xs =>
      if isBreak x then
        let (gap, d) := (c.drop 2).gap
        if d.marksDocument then none
        else (doubleQuoted n d).map fun (more, e) => (gap.breaks ++ more, e)
      else
        match escape? (x :: xs) with
        | none => none
        | some (y, k) => (doubleQuoted n (c.drop (k + 1))).map fun (more, e) => (y :: more, e)
    | x :: _ =>
      if isGap x then
        let (gap, d) := c.gap
        if d.marksDocument then none
        else (doubleQuoted n d).map fun (more, e) => (gap.folded ++ more, e)
      else
        let (word, d) := c.span fun y => ! isGap y && y != '"' && y != '\\'
        (doubleQuoted n d).map fun (more, e) => (word ++ more, e)

/-- A scalar in the quotes that stand at the cursor, and the place behind it. -/
def quotedScalar (single : Bool) (c : Cursor) : Option (String × Cursor) := do
  let fuel := c.rest.length + 1
  let (text, d) ← if single then singleQuoted fuel c.advance else doubleQuoted fuel c.advance
  return (String.ofList text, d)

end SC32.Yaml
