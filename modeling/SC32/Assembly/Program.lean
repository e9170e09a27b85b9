import SC32.Assembly.Resolve

/-!
Assembly in two passes over the source lines. Every line that is not blank takes one address, from
0 upwards. The first pass binds labels to addresses, the second emits one word per address. The
first fault ends assembly.
-/
namespace SC32.Assembly

/-- A line that is not blank, with its place in the source and in memory. -/
structure Placed where
  line : Nat
  address : Nat
  content : Line
  deriving DecidableEq, Repr

/-- Lines that are not blank, under their numbers in the source. -/
def numbered (source : List String) : List (Nat × Line) :=
  source.zipIdx.filterMap fun (raw, n) => (Line.parse? raw).map fun l => (n, l)

def place (source : List String) : List Placed :=
  (numbered source).zipIdx.map fun ((n, l), a) => ⟨n, a, l⟩

/-- Enter the label of a line. -/
def define (t : SymbolTable) (p : Placed) : Except LineFault SymbolTable :=
  match p.content.label with
  | none => .ok t
  | some l =>
    match t.find? l with
    | some d => .error ⟨p.line, .duplicateLabel l d.line⟩
    | none => .ok (t.insert l ⟨p.line, p.address⟩)

/-- The first pass. -/
def collect (source : List String) : Except LineFault SymbolTable :=
  (place source).foldlM define .empty

def Placed.word (t : SymbolTable) (p : Placed) : Except LineFault Word :=
  (p.content.statement >>= Statement.word t p.address).mapError fun e => ⟨p.line, e⟩

/-- The second pass. -/
def emit (t : SymbolTable) (source : List String) : Except LineFault (List Word) :=
  (place source).mapM (Placed.word t)

def assemble (source : List String) : Except LineFault (List Word) := do
  emit (← collect source) source

end SC32.Assembly
