import SC32.Yaml.Scalar.Gap

/-!
Scalars without quotes.
-/
namespace SC32.Yaml

/-- Brackets, braces and the comma. -/
def isFlowIndicator (c : Char) : Bool := ",[]\x7b\x7d".toList.contains c

/-- Characters that cannot begin a plain scalar. -/
def isIndicator (c : Char) : Bool := "-?:,[]\x7b\x7d#&*!|>'\"%@`".toList.contains c

/-- Whether a plain scalar can begin here. A dash, a question mark or a colon may begin one if it is
no token of its own. -/
def startsPlain (flow : Bool) : List Char → Bool
  | [] => false
  | c :: cs =>
    (! isIndicator c && ! isGap c) || (c == '-' && ! endsToken cs) ||
      (! flow && (c == '?' || c == ':') && ! endsToken cs)

/-- One word of a plain scalar. In flow style a colon must not touch an indicator. -/
def plainWord (flow : Bool) : List Char → Option (List Char)
  | [] => some []
  | c :: cs =>
    if isGap c then some []
    else if flow && c = ':' && cs.head?.any (fun d => isFlowIndicator d || d == '?') then none
    else if (c = ':' && endsToken cs) || (flow && isFlowIndicator c) then some []
    else (plainWord flow cs).map (c :: ·)

/-- The words of a plain scalar. In block style each line but the first is indented to column
`least` or further, and by no tab left of it. `behindBreak` tells that the place is behind a line
break; the result tells the same of its end. -/
def plainWords (flow : Bool) (least : Nat) :
    (fuel : Nat) → (behindBreak : Bool) → Cursor → Option (List Char × Bool × Cursor)
  | 0, _, _ => none
  | n + 1, behindBreak, c => do
    if c.marksDocument || c.starts '#' then return ([], behindBreak, c)
    let word ← plainWord flow c.rest
    let (gap, d) := (c.drop word.length).gap
    if gap.text.isEmpty then return (word, behindBreak && word.isEmpty, d)
    if gap.indentsByTab least then none
    if ! flow && d.column < least then return (word, gap.hasBreak, d)
    let (more, last, e) ← plainWords flow least n gap.hasBreak d
    return (if more.isEmpty then word else word ++ gap.folded ++ more, last, e)

/-- A plain scalar, whether it ends behind a line break, and the place behind it. -/
def plainScalar (flow : Bool) (least : Nat) (c : Cursor) : Option (String × Bool × Cursor) := do
  let (text, last, d) ← plainWords flow least (c.rest.length + 1) false c
  return (String.ofList text, last, d)

end SC32.Yaml
