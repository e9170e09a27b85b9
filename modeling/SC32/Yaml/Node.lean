import SC32.Yaml.Token

/-!
YAML documents as trees.
-/
namespace SC32.Yaml

inductive Node where
  | scalar (style : Style) (tag : Option String) (text : String)
  | sequence (items : List Node)
  | mapping (entries : List (Node × Node))
  /-- Stands for the node under an anchor. -/
  | reference (anchor : Nat)
  | anchored (anchor : Nat) (node : Node)

namespace Node

/-- What stands where nothing is written. -/
def absent : Node := scalar .plain none ""

mutual

/-- How often reading a document comes to a scalar, to an alias, or to one end of a collection. -/
def size : Node → Nat
  | scalar .. => 1
  | sequence xs => sizeItems xs + 2
  | mapping es => sizeEntries es + 2
  | reference _ => 1
  | anchored _ x => x.size

def sizeItems : List Node → Nat
  | [] => 0
  | x :: xs => x.size + sizeItems xs

def sizeEntries : List (Node × Node) → Nat
  | [] => 0
  | (k, x) :: es => k.size + x.size + sizeEntries es

end

mutual

/-- The nodes under anchors, in the order in which they begin, before `after`. -/
def anchors (after : List (Nat × Node)) : Node → List (Nat × Node)
  | scalar .. => after
  | sequence xs => anchorsItems after xs
  | mapping es => anchorsEntries after es
  | reference _ => after
  | anchored a x => (a, x) :: x.anchors after

def anchorsItems (after : List (Nat × Node)) : List Node → List (Nat × Node)
  | [] => after
  | x :: xs => x.anchors (anchorsItems after xs)

def anchorsEntries (after : List (Nat × Node)) : List (Node × Node) → List (Nat × Node)
  | [] => after
  | (k, x) :: es => k.anchors (x.anchors (anchorsEntries after es))

end

end Node
end SC32.Yaml
