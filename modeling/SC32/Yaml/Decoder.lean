import SC32.Yaml.Document
import SC32.Yaml.Number

/-!
Reading values off the nodes of a document. Aliases are followed, but not without end: a document of
`n` steps is left after `100 * n` of them.
-/
namespace SC32.Yaml

/-- Reads with a document at hand, and counts the aliases that may still be followed. -/
abbrev Decoder := ReaderT Document (StateT Nat Option)

namespace Decoder

/-- The node that a node stands for. -/
def follow : Node → Decoder Node
  | .reference a => do
    let left ← get
    if left = 0 then failure
    set (left - 1)
    match (← read).anchored.lookup a with
    | some x => return x
    | none => failure
  | .anchored _ x => return x
  | x => return x

/-- The text of a scalar. -/
def text (x : Node) : Decoder String := do
  match ← follow x with
  | .scalar _ _ s => return s
  | _ => failure

/-- An unsigned integer. Other than plain it is a literal scalar that its tag calls an integer. -/
def unsigned (x : Node) : Decoder Nat := do
  let s ← match ← follow x with
    | .scalar .plain _ s => pure s
    | .scalar .literal (some "tag:yaml.org,2002:int") s => pure s
    | _ => failure
  match unsigned? s with
  | some n => return n
  | none => failure

/-- The items of a sequence. An empty plain scalar has none. -/
def items (x : Node) : Decoder (List Node) := do
  match ← follow x with
  | .sequence xs => return xs
  | .scalar .plain _ "" => return []
  | _ => failure

/-- The entries of a mapping. An empty plain scalar has none. -/
def entries (x : Node) : Decoder (List (Node × Node)) := do
  match ← follow x with
  | .mapping es => return es
  | .scalar .plain _ "" => return []
  | _ => failure

/-- What a decoder reads off the root of a document. -/
def decode? (f : Node → Decoder α) (d : Document) : Option α :=
  (f d.root).run d |>.run' (100 * d.size)

end Decoder
end SC32.Yaml
