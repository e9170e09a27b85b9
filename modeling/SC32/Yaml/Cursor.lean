/-!
Places in a YAML text. Its line breaks are unified first, so that each is one character.
-/
namespace SC32.Yaml

def isBlank (c : Char) : Bool := c == ' ' || c == '\t'

/-- A line feed, or a separator of lines or paragraphs. -/
def isBreak (c : Char) : Bool := c == '\n' || c == '\u2028' || c == '\u2029'

def isGap (c : Char) : Bool := isBlank c || isBreak c

/-- Every line break as a line feed, but for separators of lines and paragraphs. -/
def unifyBreaks : List Char → List Char
  | '\r' :: '\n' :: cs => '\n' :: unifyBreaks cs
  | c :: cs => (if c = '\r' || c = '\u0085' then '\n' else c) :: unifyBreaks cs
  | [] => []

/-- Characters that a text may hold. -/
def isAllowed (c : Char) : Bool :=
  let n := c.toNat
  n == 0x09 || n == 0x0A || n == 0x0D || (0x20 ≤ n && n ≤ 0x7E) || n == 0x85 ||
    (0xA0 ≤ n && n ≤ 0xFFFD) || 0x10000 ≤ n

/-- Whether a token that needs a gap behind it may end here. -/
def endsToken : List Char → Bool
  | [] => true
  | c :: _ => isGap c

structure Cursor where
  rest : List Char
  line : Nat
  column : Nat
  /-- Bytes from the start of the line. -/
  offset : Nat

namespace Cursor

def start (text : List Char) : Cursor := ⟨text, 0, 0, 0⟩

def advance (c : Cursor) : Cursor :=
  match c.rest with
  | [] => c
  | x :: xs =>
    if isBreak x then ⟨xs, c.line + 1, 0, 0⟩
    else ⟨xs, c.line, c.column + 1, c.offset + x.utf8Size⟩

def drop (c : Cursor) : Nat → Cursor
  | 0 => c
  | n + 1 => c.advance.drop n

/-- The longest run of characters of a kind, and the place behind it. -/
def span (p : Char → Bool) (c : Cursor) : List Char × Cursor :=
  let run := c.rest.takeWhile p
  (run, c.drop run.length)

def skipWhile (p : Char → Bool) (c : Cursor) : Cursor := (c.span p).2

def starts (x : Char) (c : Cursor) : Bool := c.rest.head? == some x

/-- Three equal characters that have a line's start before them and a gap behind. -/
def marks (x : Char) (c : Cursor) : Bool :=
  c.column == 0 && c.rest.take 3 == [x, x, x] && endsToken (c.rest.drop 3)

/-- Where a document starts or ends. -/
def marksDocument (c : Cursor) : Bool := c.marks '-' || c.marks '.'

/-- Whether nothing but a line break or the end of the text is here. -/
def endsLine (c : Cursor) : Bool := c.rest.head?.all isBreak

/-- Over blanks and a comment. -/
def skipComment (c : Cursor) : Cursor :=
  let d := c.skipWhile isBlank
  if d.starts '#' then d.skipWhile (! isBreak ·) else d

end Cursor
end SC32.Yaml
