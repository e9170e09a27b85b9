import SC32.Yaml.Scalar.Block
import SC32.Yaml.Scalar.Plain
import SC32.Yaml.Tag

/-!
Cutting a YAML text into tokens. Indentation becomes tokens that open and close block collections. A
key without a question mark is known only by the colon behind it, so the lexer remembers where one
may have begun and puts the missing tokens in there.
-/
namespace SC32.Yaml

/-- Where a key may have begun. -/
structure KeyStart where
  /-- How many tokens come before it. -/
  position : Nat
  line : Nat
  column : Nat
  offset : Nat
  /-- Whether nothing but a key can stand there. -/
  required : Bool

/-- A key and its colon share a line, and the key takes at most 1024 bytes of it. -/
def KeyStart.reaches (k : KeyStart) (c : Cursor) : Bool :=
  k.line == c.line && c.offset ≤ k.offset + 1024

structure Lexer where
  cursor : Cursor
  /-- The tokens so far, the latest first. -/
  tokens : List Token
  count : Nat
  /-- The columns of the open block collections, the innermost first. -/
  indents : List Nat
  /-- Outside all flow collections. -/
  blockKey : Option KeyStart
  /-- In each open flow collection, the innermost first. -/
  flowKeys : List (Option KeyStart)
  /-- Whether a key may begin at the next token. -/
  keyAllowed : Bool

namespace Lexer

def start (text : List Char) : Lexer := ⟨.start text, [], 0, [], none, [], true⟩

def flow (l : Lexer) : Bool := ! l.flowKeys.isEmpty

/-- The least column of what is nested in the innermost block collection. -/
def least (l : Lexer) : Nat :=
  match l.indents with
  | [] => 0
  | i :: _ => i + 1

def emit (t : Token) (l : Lexer) : Lexer := { l with tokens := t :: l.tokens, count := l.count + 1 }

/-- Put a token behind the first `position` tokens. -/
def insert (position : Nat) (t : Token) (l : Lexer) : Lexer :=
  let (later, earlier) := l.tokens.splitAt (l.count - position)
  { l with tokens := later ++ t :: earlier, count := l.count + 1 }

def move (c : Cursor) (l : Lexer) : Lexer := { l with cursor := c }

def allowKey (b : Bool) (l : Lexer) : Lexer := { l with keyAllowed := b }

/-- The token `t` of `n` characters. -/
def take (n : Nat) (t : Token) (l : Lexer) : Lexer := (l.emit t).move (l.cursor.drop n)

/-- Close the block collections in columns that satisfy `p`, from the innermost. -/
def closeWhile (p : Nat → Bool) (l : Lexer) : Lexer :=
  if l.flow then l
  else
    let n := (l.indents.takeWhile p).length
    { l with
      indents := l.indents.drop n, tokens := .replicate n .blockEnd ++ l.tokens,
      count := l.count + n }

/-- Open a block collection at `position` if its column is a new indentation. -/
def openBlock (column position : Nat) (t : Token) (l : Lexer) : Lexer :=
  if l.flow || column < l.least then l
  else { l.insert position t with indents := column :: l.indents }

/-- No key begins at the remembered place after all. -/
def dropKey (l : Lexer) : Option Lexer :=
  match l.flowKeys with
  | _ :: ks => some { l with flowKeys := none :: ks }
  | [] => if l.blockKey.any (·.required) then none else some { l with blockKey := none }

/-- A key outside flow collections whose colon has become out of reach. -/
def checkKey (l : Lexer) : Option Lexer :=
  match l.blockKey with
  | none => some l
  | some k =>
    if k.reaches l.cursor then some l
    else if k.required then none
    else some { l with blockKey := none }

/-- Remember that a key may begin here. -/
def saveKey (l : Lexer) : Option Lexer := do
  if ! l.keyAllowed then return l
  let c := l.cursor
  let required := ! l.flow && l.indents.head? == some c.column
  let key : KeyStart := ⟨l.count, c.line, c.column, c.offset, required⟩
  let l ← l.dropKey
  match l.flowKeys with
  | _ :: ks => return { l with flowKeys := some key :: ks }
  | [] => return { l with blockKey := some key }

/-- The key that a colon at the cursor would make. -/
def key? (l : Lexer) : Option KeyStart :=
  (l.flowKeys.head?.getD l.blockKey).filter (·.reaches l.cursor)

/-- Over blanks, comments and line breaks. A byte order mark may begin a line, and a tab must not
stand where a key may begin. Outside flow collections a key may begin in each line. -/
def seek : (fuel : Nat) → Lexer → Lexer
  | 0, l => l
  | n + 1, l =>
    let c := if l.cursor.column = 0 && l.cursor.starts '\ufeff' then l.cursor.advance else l.cursor
    let d := c.skipWhile fun x => x = ' ' || ((l.flow || ! l.keyAllowed) && x = '\t')
    let e := if d.starts '#' then d.skipWhile (! isBreak ·) else d
    if e.rest.head?.any isBreak then
      seek n ((l.move e.advance).allowKey (l.keyAllowed || ! l.flow))
    else l.move e

/-- A token that may begin a key. -/
def atom (read : Cursor → Option (Token × Cursor)) (l : Lexer) : Option Lexer := do
  let l ← l.saveKey
  let (t, c) ← read l.cursor
  return ((l.emit t).move c).allowKey false

def directive (l : Lexer) : Option Lexer := do
  let l ← (l.closeWhile fun _ => true).dropKey
  let (t, c) ← Directive.read? l.cursor
  return ((l.emit t).move c).allowKey false

def documentMark (t : Token) (l : Lexer) : Option Lexer := do
  let l ← (l.closeWhile fun _ => true).dropKey
  return (l.take 3 t).allowKey false

def flowStart (t : Token) (l : Lexer) : Option Lexer := do
  let l ← l.saveKey
  return { (l.take 1 t).allowKey true with flowKeys := none :: l.flowKeys }

def flowEnd (t : Token) (l : Lexer) : Option Lexer := do
  let l ← l.dropKey
  return { (l.take 1 t).allowKey false with flowKeys := l.flowKeys.tail }

def flowEntry (l : Lexer) : Option Lexer := do
  let l ← l.dropKey
  return (l.take 1 .flowEntry).allowKey true

def blockEntry (l : Lexer) : Option Lexer := do
  if ! l.flow && ! l.keyAllowed then none
  let l ← (l.openBlock l.cursor.column l.count .blockSequence).dropKey
  return (l.take 1 .blockEntry).allowKey true

def explicitKey (l : Lexer) : Option Lexer := do
  if ! l.flow && ! l.keyAllowed then none
  let l ← (l.openBlock l.cursor.column l.count .blockMapping).dropKey
  return (l.take 1 .key).allowKey (! l.flow)

/-- A colon. It makes a key of what it follows, or it follows an explicit key. -/
def value (l : Lexer) : Option Lexer := do
  match l.key? with
  | some k =>
    let l := (l.insert k.position .key).openBlock k.column k.position .blockMapping
    let l := match l.flowKeys with
      | _ :: ks => { l with flowKeys := none :: ks }
      | [] => { l with blockKey := none }
    return (l.take 1 .value).allowKey false
  | none =>
    if ! l.flow && ! l.keyAllowed then none
    let l := l.openBlock l.cursor.column l.count .blockMapping
    return (l.take 1 .value).allowKey (! l.flow)

def blockScalar (style : Style) (l : Lexer) : Option Lexer := do
  let l ← l.dropKey
  let (text, c) ← Yaml.blockScalar (style = .folded) l.least l.cursor
  return ((l.emit (.scalar style text)).move c).allowKey true

def plainScalar (l : Lexer) : Option Lexer := do
  let l ← l.saveKey
  let (text, behindBreak, c) ← Yaml.plainScalar l.flow l.least l.cursor
  return ((l.emit (.scalar .plain text)).move c).allowKey behindBreak

def anchorLike (make : String → Token) (c : Cursor) : Option (Token × Cursor) :=
  (anchorName? c).map fun (name, d) => (make name, d)

def quoted (style : Style) (c : Cursor) : Option (Token × Cursor) :=
  (quotedScalar (style = .singleQuoted) c).map fun (text, d) => (.scalar style text, d)

/-- The token that begins with `x`, where `behind` follows. -/
def token (x : Char) (behind : List Char) (l : Lexer) : Option Lexer :=
  let ends := endsToken behind
  match x with
  | '[' => l.flowStart .flowSequence
  | '\x7b' => l.flowStart .flowMapping
  | ']' => l.flowEnd .flowSequenceEnd
  | '\x7d' => l.flowEnd .flowMappingEnd
  | ',' => l.flowEntry
  | '*' => l.atom (anchorLike .reference)
  | '&' => l.atom (anchorLike .anchor)
  | '!' => l.atom (Tag.read? l.flow)
  | '\'' => l.atom (quoted .singleQuoted)
  | '"' => l.atom (quoted .doubleQuoted)
  | _ =>
    if x = '-' && ends then l.blockEntry
    else if x = '?' && (l.flow || ends) then l.explicitKey
    else if x = ':' && (l.flow || ends) then l.value
    else if x = '|' && ! l.flow then l.blockScalar .literal
    else if x = '>' && ! l.flow then l.blockScalar .folded
    else if startsPlain l.flow (x :: behind) then l.plainScalar
    else none

/-- The tokens from here on to the end. The fuel exceeds the number of characters left, since each
token takes at least one of them. -/
def run : (fuel : Nat) → Lexer → Option (List Token)
  | 0, _ => none
  | n + 1, l => do
    let l ← (l.seek (n + 1)).checkKey
    let l := l.closeWhile (l.cursor.column < ·)
    match l.cursor.rest with
    | [] =>
      let l ← (l.closeWhile fun _ => true).dropKey
      return l.tokens.reverse
    | x :: behind =>
      if l.cursor.column = 0 && x = '%' then run n (← l.directive)
      else if l.cursor.marks '-' then run n (← l.documentMark .documentStart)
      else if l.cursor.marks '.' then run n (← l.documentMark .documentEnd)
      else run n (← l.token x behind)

end Lexer

/-- The tokens of a text without line breaks of other kinds. -/
def Token.ofText? (text : List Char) : Option (List Token) :=
  (Lexer.start text).run (text.length + 1)

end SC32.Yaml
