import SC32.Yaml.Scalar.Quoted
import SC32.Yaml.Token

/-!
Names of anchors, tags, and the directives before a document. The text of a tag has one character
for each of its octets.
-/
namespace SC32.Yaml

def isNameChar (c : Char) : Bool := c.isAlphanum || c == '_' || c == '-'

/-- The name behind the indicator of an anchor or an alias. -/
def anchorName? (c : Cursor) : Option (String × Cursor) :=
  let (name, d) := c.advance.span isNameChar
  if ! name.isEmpty && (endsToken d.rest || d.rest.head?.any "?:,]\x7d%@`".toList.contains) then
    some (String.ofList name, d)
  else none

namespace Tag

/-- Characters of a tag. Inside angle brackets and in directives some flow indicators are among
them. -/
def isTagChar (verbatim : Bool) (c : Char) : Bool :=
  isNameChar c || ";/?:@&=+$.!~*'()".toList.contains c || (verbatim && ",[]".toList.contains c)

/-- An octet behind a percent sign. -/
def octet? : List Char → Option Nat
  | '%' :: a :: b :: _ => do return 16 * (← hexDigit? a) + (← hexDigit? b)
  | _ => none

/-- How many octets follow a first one, by its high bits. -/
def followers? (octet : Nat) : Option Nat :=
  if octet < 0x80 then some 0
  else if octet / 0x20 = 6 then some 1
  else if octet / 0x10 = 14 then some 2
  else if octet / 0x08 = 30 then some 3
  else none

/-- Escaped octets that each follow another. -/
def followingOctets : Nat → Cursor → Option (List Char × Cursor)
  | 0, c => some ([], c)
  | n + 1, c => do
    let octet ← octet? c.rest
    if octet / 0x40 ≠ 2 then none
    let (more, d) ← followingOctets n (c.drop 3)
    return (Char.ofNat octet :: more, d)

/-- Characters and escaped octets of a tag. -/
def octets (verbatim : Bool) : (fuel : Nat) → Cursor → Option (List Char × Cursor)
  | 0, _ => none
  | n + 1, c => do
    if c.starts '%' then
      let octet ← octet? c.rest
      let (follow, d) ← followingOctets (← followers? octet) (c.drop 3)
      let (more, e) ← octets verbatim n d
      return (Char.ofNat octet :: follow ++ more, e)
    let (run, d) := c.span (isTagChar verbatim)
    if run.isEmpty then return ([], c)
    let (more, e) ← octets verbatim n d
    return (run ++ more, e)

/-- The text of a tag ends before an octet that is zero. -/
def text (cs : List Char) : String := String.ofList (cs.takeWhile (· ≠ '\x00'))

/-- The octets of a tag from the cursor on, at least one. -/
def path? (verbatim : Bool) (c : Cursor) : Option (String × Cursor) := do
  let (cs, d) ← octets verbatim (c.rest.length + 1) c
  if cs.isEmpty then none else return (text cs, d)

/-- An exclamation mark, a name, and another mark if one follows. -/
def handle (c : Cursor) : List Char × Cursor :=
  let (name, d) := c.advance.span isNameChar
  if d.starts '!' then ('!' :: name ++ ['!'], d.advance) else ('!' :: name, d)

/-- Whether a handle is more than a single mark and ends in one. -/
def isClosed (handle : List Char) : Bool := 1 < handle.length && handle.getLast? == some '!'

/-- Handle and suffix of the tag at the cursor. A tag in angle brackets has no handle, nor has a
single mark. -/
def parts? (c : Cursor) : Option (String × String × Cursor) := do
  if c.advance.starts '<' then
    let (suffix, d) ← path? true (c.drop 2)
    if d.starts '>' then return ("", suffix, d.advance) else none
  let (first, d) := handle c
  if isClosed first then
    let (suffix, e) ← path? false d
    return (String.ofList first, suffix, e)
  let (more, e) ← octets false (d.rest.length + 1) d
  let suffix := text (first.drop 1 ++ more)
  return if suffix = "" then ("", "!", e) else ("!", suffix, e)

/-- The tag at the cursor. In flow style a comma may follow it at once. -/
def read? (flow : Bool) (c : Cursor) : Option (Token × Cursor) := do
  let (handle, suffix, d) ← parts? c
  if (flow && d.starts ',') || endsToken d.rest then return (.tag handle suffix, d) else none

end Tag

namespace Directive

/-- A number of at most nine digits. -/
def number? (c : Cursor) : Option (Nat × Cursor) :=
  let (digits, d) := c.span Char.isDigit
  if digits.isEmpty || 9 < digits.length then none
  else some (digits.foldl (fun n x => 10 * n + (x.toNat - '0'.toNat)) 0, d)

def version? (c : Cursor) : Option (Token × Cursor) := do
  let (major, d) ← number? (c.skipWhile isBlank)
  if ! d.starts '.' then none
  let (minor, e) ← number? d.advance
  return (.version major minor, e)

def tagHandle? (c : Cursor) : Option (Token × Cursor) := do
  let d := c.skipWhile isBlank
  if ! d.starts '!' then none
  let (handle, e) := Tag.handle d
  if handle ≠ ['!'] && ! Tag.isClosed handle then none
  if ! e.rest.head?.any isBlank then none
  let (path, f) ← Tag.path? true (e.skipWhile isBlank)
  if endsToken f.rest then return (.tagHandle (String.ofList handle) path, f) else none

/-- The directive at the cursor, and the place behind its line. -/
def read? (c : Cursor) : Option (Token × Cursor) := do
  let (name, d) := c.advance.span isNameChar
  if ! endsToken d.rest then none
  let (t, e) ← match String.ofList name with
    | "YAML" => version? d
    | "TAG" => tagHandle? d
    | _ => none
  let f := e.skipComment
  if f.endsLine then return (t, f.advance) else none

end Directive

end SC32.Yaml
