import SC32.Yaml.Scalar.Gap

/-!
Scalars of whole lines: literal ones keep their line breaks, folded ones do not.
-/
namespace SC32.Yaml

/-- What becomes of the line breaks at the end. -/
inductive Chomping where
  | strip
  /-- The first one stays. -/
  | clip
  | keep
  deriving DecidableEq, Repr

structure BlockHeader where
  chomping : Chomping
  /-- Columns further than what surrounds the scalar, if they are given. -/
  increment : Option Nat

namespace BlockHeader

def chomping? : List Char → Option Chomping
  | '+' :: _ => some .keep
  | '-' :: _ => some .strip
  | _ => none

/-- A digit but zero. -/
def increment? (cs : List Char) : Option (Option Nat) :=
  match cs.head?.filter Char.isDigit with
  | none => some none
  | some '0' => none
  | some c => some (some (c.toNat - '0'.toNat))

/-- The two indicators, in any order. -/
def read? (c : Cursor) : Option (BlockHeader × Cursor) := do
  match chomping? c.rest with
  | some k =>
    let d := c.advance
    match ← increment? d.rest with
    | some i => return (⟨k, some i⟩, d.advance)
    | none => return (⟨k, none⟩, d)
  | none =>
    match ← increment? c.rest with
    | some i =>
      let d := c.advance
      match chomping? d.rest with
      | some k => return (⟨k, some i⟩, d.advance)
      | none => return (⟨.clip, some i⟩, d)
    | none => return (⟨.clip, none⟩, c)

end BlockHeader

/-- Empty lines, with the line breaks among them, the greatest column reached, and the place behind.
While the indentation is not known any number of spaces belongs to it; a tab in it is a fault. -/
def emptyLines (indent : Option Nat) :
    (fuel : Nat) → (widest : Nat) → Cursor → Option (List Char × Nat × Cursor)
  | 0, _, _ => none
  | n + 1, widest, c => do
    let spaces := (c.rest.takeWhile (· = ' ')).length
    let d := c.drop (match indent with
      | none => spaces
      | some i => min spaces (i - c.column))
    let widest := max widest d.column
    if indent.all (d.column < ·) && d.starts '\t' then none
    match d.rest with
    | [] => return ([], widest, d)
    | x :: _ =>
      if isBreak x then
        let (breaks, w, e) ← emptyLines indent n widest d.advance
        return (x :: breaks, w, e)
      return ([], widest, d)

/-- What stands between two lines: the break behind the first one, and the empty lines. Folding
makes a space of the break, or nothing if empty lines follow, unless a line next to it starts with
a blank. -/
def joint (folds : Bool) (last : Option Char) (empty : List Char) (blanks : Bool) : List Char :=
  if folds && last = some '\n' && ! blanks then
    if empty.isEmpty then [' '] else empty
  else last.toList ++ empty

/-- The lines indented to column `indent`: their text, the break behind the last one, the empty
lines at the end, and the place behind. `last` is the break before the place, `empty` the empty
lines, and `blank` tells whether the line before starts with a blank. -/
def blockLines (folds : Bool) (indent : Nat) : (fuel : Nat) → (last : Option Char) →
    (empty : List Char) → (blank : Bool) → Cursor →
    Option (List Char × Option Char × List Char × Cursor)
  | 0, _, _, _, _ => none
  | n + 1, last, empty, blank, c => do
    if c.column ≠ indent || c.rest.isEmpty then return ([], last, empty, c)
    let here := c.rest.head?.any isBlank
    let (line, d) := c.span (! isBreak ·)
    let (next, _, e) ← emptyLines (some indent) (d.rest.length + 1) 0 d.advance
    let (more, result) ← blockLines folds indent n d.rest.head? next here e
    return (joint folds last empty (blank || here) ++ line ++ more, result)

/-- A scalar of lines whose indicator stands at the cursor. It is indented to column `least` or
further. -/
def blockScalar (folds : Bool) (least : Nat) (c : Cursor) : Option (String × Cursor) := do
  let (header, d) ← BlockHeader.read? c.advance
  let e := d.skipComment
  if ! e.endsLine then none
  let fuel := e.rest.length + 2
  let given := header.increment.map (least - 1 + ·)
  let (empty, widest, f) ← emptyLines given fuel 0 e.advance
  let indent := given.getD (max widest (max least 1))
  let (text, last, tail, g) ← blockLines folds indent fuel none empty false f
  let ending := match header.chomping with
    | .strip => []
    | .clip => last.toList
    | .keep => last.toList ++ tail
  return (String.ofList (text ++ ending), g)

end SC32.Yaml
