import SC32.Yaml.Lexer
import SC32.Yaml.Node

/-!
The single document of a YAML text, composed of its tokens.
-/
namespace SC32.Yaml

/-- What is left to read of a document. -/
structure Composer where
  tokens : List Token
  /-- What the handles of tags stand for. -/
  handles : List (String × String)
  /-- The numbers of the anchors in force. -/
  anchors : List (String × Nat)

abbrev Compose := StateT Composer Option

namespace Compose

/-- The next token, if any is left. -/
def next : Compose (Option Token) := return (← get).tokens.head?

def nextIs (ts : List Token) : Compose Bool := return (← next).any ts.contains

def skip : Compose Unit := modify fun c => { c with tokens := c.tokens.tail }

/-- The next token is `t`, and it is skipped. -/
def expect (t : Token) : Compose Unit := do if ← nextIs [t] then skip else failure

/-- The number of a new anchor, which is the number of names in force when it appears. It takes
the place of an anchor of the same name. -/
def bindAnchor (name : String) : Compose Nat := do
  let c ← get
  set { c with anchors := (name, c.anchors.length) :: c.anchors.filter (·.1 ≠ name) }
  return c.anchors.length

/-- A tag in full. One without a handle is in full already. -/
def fullTag (handle suffix : String) : Compose String := do
  if handle = "" then return suffix
  match (← get).handles.lookup handle with
  | some path => return path ++ suffix
  | none => failure

def anchor? : Compose (Option Nat) := do
  match ← next with
  | some (.anchor name) =>
    skip
    return some (← bindAnchor name)
  | _ => return none

def tag? : Compose (Option String) := do
  match ← next with
  | some (.tag handle suffix) =>
    skip
    return some (← fullTag handle suffix)
  | _ => return none

/-- An anchor and a tag, in any order, where each may be missing. -/
def properties : Compose (Option Nat × Option String) := do
  match ← anchor? with
  | some a => return (some a, ← tag?)
  | none =>
    let t ← tag?
    return (← anchor?, t)

mutual

/-- A node. Only where `block` is true it may be a block collection, and only where `dashes` is true
a block sequence without an indentation of its own. -/
def node : (fuel : Nat) → (block dashes : Bool) → Compose Node
  | 0, _, _ => failure
  | n + 1, block, dashes => do
    if let some (.reference name) ← next then
      skip
      match (← get).anchors.lookup name with
      | some a => return .reference a
      | none => failure
    let (anchor, tag) ← properties
    let x ← content n block dashes (anchor.isSome || tag.isSome) tag
    return anchor.elim x fun a => .anchored a x

/-- A node behind its anchor and its tag. Where there are any, nothing need follow. -/
def content : (fuel : Nat) → (block dashes bare : Bool) → Option String → Compose Node
  | 0, _, _, _, _ => failure
  | n + 1, block, dashes, bare, tag => do
    match ← next with
    | some (.scalar style text) =>
      skip
      return .scalar style tag text
    | some .flowSequence =>
      skip
      return .sequence (← flowItems n [])
    | some .flowMapping =>
      skip
      return .mapping (← flowEntries n [])
    | t =>
      if dashes && t = some .blockEntry then return .sequence (← dashItems n [])
      if block && t = some .blockSequence then
        skip
        return .sequence (← blockItems n [])
      if block && t = some .blockMapping then
        skip
        return .mapping (← blockEntries n [])
      if bare then return .scalar .plain tag "" else failure

/-- A node in block style, or the absent node before one of the tokens `ends`. -/
def blockNode : (fuel : Nat) → (dashes : Bool) → (ends : List Token) → Compose Node
  | 0, _, _ => failure
  | n + 1, dashes, ends => do if ← nextIs ends then return .absent else node n true dashes

/-- A node in flow style, or the absent node before one of the tokens `ends`. -/
def flowNode : (fuel : Nat) → (ends : List Token) → Compose Node
  | 0, _ => failure
  | n + 1, ends => do if ← nextIs ends then return .absent else node n false false

def blockItems : (fuel : Nat) → (items : List Node) → Compose (List Node)
  | 0, _ => failure
  | n + 1, items => do
    if ← nextIs [.blockEnd] then
      skip
      return items.reverse
    expect .blockEntry
    blockItems n ((← blockNode n false [.blockEntry, .blockEnd]) :: items)

/-- Items whose dashes stand in the column of the keys around them. -/
def dashItems : (fuel : Nat) → (items : List Node) → Compose (List Node)
  | 0, _ => failure
  | n + 1, items => do
    if ! (← nextIs [.blockEntry]) then return items.reverse
    skip
    dashItems n ((← blockNode n false [.blockEntry, .key, .value, .blockEnd]) :: items)

def blockEntries : (fuel : Nat) → (entries : List (Node × Node)) → Compose (List (Node × Node))
  | 0, _ => failure
  | n + 1, entries => do
    if ← nextIs [.blockEnd] then
      skip
      return entries.reverse
    expect .key
    let ends := [.key, .value, .blockEnd]
    let key ← blockNode n true ends
    if ! (← nextIs [.value]) then return ← blockEntries n ((key, .absent) :: entries)
    skip
    blockEntries n ((key, ← blockNode n true ends) :: entries)

/-- The value behind a key in flow style. -/
def flowValue : (fuel : Nat) → (ends : List Token) → Compose Node
  | 0, _ => failure
  | n + 1, ends => do
    if ← nextIs [.value] then
      skip
      flowNode n ends
    else return .absent

/-- An entry that stands in a sequence. A key that is not there takes the token in its place
along. -/
def flowPair : (fuel : Nat) → Compose Node
  | 0 => failure
  | n + 1 => do
    let here ← nextIs [.value, .flowEntry, .flowSequenceEnd]
    if here then skip
    let key ← if here then pure .absent else node n false false
    return .mapping [(key, ← flowValue n [.flowEntry, .flowSequenceEnd])]

/-- The items up to a bracket; there is a comma before each but the first. -/
def flowItems : (fuel : Nat) → (items : List Node) → Compose (List Node)
  | 0, _ => failure
  | n + 1, items => do
    if ! items.isEmpty && ! (← nextIs [.flowSequenceEnd]) then expect .flowEntry
    if ← nextIs [.flowSequenceEnd] then
      skip
      return items.reverse
    if ← nextIs [.key] then
      skip
      flowItems n ((← flowPair n) :: items)
    else flowItems n ((← node n false false) :: items)

/-- The entries up to a brace; there is a comma before each but the first. -/
def flowEntries : (fuel : Nat) → (entries : List (Node × Node)) → Compose (List (Node × Node))
  | 0, _ => failure
  | n + 1, entries => do
    if ! entries.isEmpty && ! (← nextIs [.flowMappingEnd]) then expect .flowEntry
    if ← nextIs [.flowMappingEnd] then
      skip
      return entries.reverse
    if ← nextIs [.key] then
      skip
      let key ← flowNode n [.value, .flowEntry, .flowMappingEnd]
      flowEntries n ((key, ← flowValue n [.flowEntry, .flowMappingEnd]) :: entries)
    else flowEntries n ((← node n false false, .absent) :: entries)

end

/-- Directives, at most one of them a version, and no two with one handle. Two handles need none. -/
def directives : (fuel : Nat) → (versioned : Bool) → Compose Unit
  | 0, _ => failure
  | n + 1, versioned => do
    match ← next with
    | some (.version major minor) =>
      if versioned || major ≠ 1 || (minor ≠ 1 && minor ≠ 2) then failure
      skip
      directives n true
    | some (.tagHandle handle path) =>
      let c ← get
      if (c.handles.lookup handle).isSome then failure
      set { c with handles := (handle, path) :: c.handles }
      skip
      directives n versioned
    | _ =>
      modify fun c =>
        { c with handles := c.handles ++ [("!", "!"), ("!!", "tag:yaml.org,2002:")] }

/-- Whether a document has no content before this token. -/
def endsContent : Option Token → Bool
  | none => true
  | some (.version ..) => true
  | some (.tagHandle ..) => true
  | some .documentStart => true
  | some .documentEnd => true
  | _ => false

/-- The content of a document, which is marked where it starts if directives come before it. -/
def root (fuel : Nat) : Compose Node := do
  let first ← next
  if first.isNone then return .absent
  directives fuel false
  if first = some .documentEnd || ! endsContent first then return ← node fuel true false
  expect .documentStart
  if endsContent (← next) then return .absent else node fuel true false

end Compose

structure Document where
  root : Node
  /-- The nodes under anchors, those that begin last first. -/
  anchored : List (Nat × Node)
  size : Nat

namespace Document

def ofTokens? (tokens : List Token) : Option Document := do
  let (root, c) ← Compose.root (5 * tokens.length + 8) |>.run ⟨tokens, [], []⟩
  if c.tokens.all (· = .documentEnd) then
    return ⟨root, (root.anchors []).reverse, root.size⟩
  else none

/-- The only document of a text. -/
def parse? (text : String) : Option Document := do
  let cs := text.toList
  if ! cs.all isAllowed then none
  ofTokens? (← Token.ofText? (unifyBreaks cs))

end Document
end SC32.Yaml
