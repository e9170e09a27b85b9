import SC32.Machine.Watch
import SC32.Yaml.Decoder

/-!
Watch lists written in YAML: a mapping from addresses to mappings with the lists `reg` and `mem`.
Either list may be missing, and so may what stands under an address; other keys are ignored.
-/
namespace SC32.WatchList

open Yaml Decoder

def register (x : Node) : Decoder Reg := do
  match Reg.ofNat? (← unsigned x) with
  | some r => return r
  | none => failure

/-- A list of nodes, each read by `item`. -/
def listOf (item : Node → Decoder α) (x : Node) : Decoder (List α) := do (← items x).mapM item

/-- The two lists of a watch as far as they have been read. -/
structure Partial where
  registers : Option (List Reg)
  addresses : Option (List Nat)

/-- Read one entry. Neither list may come twice. -/
def entry (p : Partial) (e : Node × Node) : Decoder Partial := do
  match ← text e.1 with
  | "reg" =>
    if p.registers.isSome then failure
    return { p with registers := some (← listOf register e.2) }
  | "mem" =>
    if p.addresses.isSome then failure
    return { p with addresses := some (← listOf unsigned e.2) }
  | _ => return p

def watch (x : Node) : Decoder Watch := do
  let p ← (← Decoder.entries x).foldlM entry ⟨none, none⟩
  return ⟨p.registers.getD [], p.addresses.getD []⟩

/-- The watches of a document. Of those with one address the last counts. -/
def ofNode (x : Node) : Decoder WatchList := do
  (← Decoder.entries x).foldlM (fun l e => return l.insert (← unsigned e.1) (← watch e.2)) .empty

def parse? (s : String) : Option WatchList := Document.parse? s >>= decode? ofNode

end SC32.WatchList
