/-!
Command lines. Options have a short and a long name and may take a value, which is attached to the
name or is the next argument. Arguments are read from the left; the first mistake, or the first
request for the version or for help, decides.
-/
namespace SC32.Command

/-- What an option does to the settings `σ`. A setter refuses a repeated option or a bad value. -/
inductive Effect (σ : Type) where
  | flag (set : σ → Option σ)
  | value (set : String → σ → Option σ)
  | version
  | help

structure OptionSpec (σ : Type) where
  short : Char
  long : String
  effect : Effect σ

structure Grammar (σ : Type) where
  options : List (OptionSpec σ)
  positional : String → σ → Option σ

/-- What a command line asks for. -/
inductive Request (σ : Type) where
  | run (settings : σ)
  | misuse
  | version
  | help

/-- Where reading stands after an argument. -/
inductive Progress (σ : Type) where
  | next (settings : σ)
  /-- An option still waits for its value. -/
  | waiting (set : String → σ → Option σ) (settings : σ)
  | decided (r : Request σ)

namespace Progress

def ofOption : Option σ → Progress σ
  | some s => next s
  | none => decided .misuse

end Progress

namespace Grammar

def findShort? (g : Grammar σ) (c : Char) : Option (Effect σ) :=
  (g.options.find? (·.short = c)).map OptionSpec.effect

def findLong? (g : Grammar σ) (name : String) : Option (Effect σ) :=
  (g.options.find? (·.long = name)).map OptionSpec.effect

/-- A value attached to a short name may have an equals sign before it. -/
def attached : List Char → String
  | '=' :: cs => String.ofList cs
  | cs => String.ofList cs

/-- Short options behind one dash. -/
def cluster (g : Grammar σ) (s : σ) : List Char → Progress σ
  | [] => .next s
  | c :: cs =>
    match g.findShort? c with
    | some (.flag set) =>
      match set s with
      | some s' => cluster g s' cs
      | none => .decided .misuse
    | some (.value set) =>
      if cs.isEmpty then .waiting set s else .ofOption (set (attached cs) s)
    | some .version => .decided .version
    | some .help => .decided .help
    | none => .decided .misuse

/-- A long option; `value?` is what is attached to it. -/
def long (g : Grammar σ) (s : σ) (name : String) (value? : Option String) : Progress σ :=
  match g.findLong? name, value? with
  | some (.value set), some v => .ofOption (set v s)
  | some (.value set), none => .waiting set s
  | some (.flag set), none => .ofOption (set s)
  | some .version, none => .decided .version
  | some .help, none => .decided .help
  | _, _ => .decided .misuse

/-- What is attached to a long name by an equals sign. -/
def attachment? : List Char → Option String
  | '=' :: cs => some (String.ofList cs)
  | _ => none

/-- One argument where an option may stand. -/
def argument (g : Grammar σ) (s : σ) (arg : String) : Progress σ :=
  match arg.toList with
  | '-' :: '-' :: cs =>
    g.long s (String.ofList (cs.takeWhile (· ≠ '='))) (attachment? (cs.dropWhile (· ≠ '=')))
  | '-' :: c :: cs => g.cluster s (c :: cs)
  | _ => .ofOption (g.positional arg s)

/-- Whether an argument can be the value of an option before it. -/
def isValue (arg : String) : Bool := arg == "-" || arg.toList.head? != some '-'

/-- Arguments behind `--`, none of which is an option. -/
def operands (g : Grammar σ) (s : σ) (args : List String) : Request σ :=
  match args.foldlM (fun s arg => g.positional arg s) s with
  | some s => .run s
  | none => .misuse

def parse (g : Grammar σ) (s : σ) : List String → Request σ
  | [] => .run s
  | arg :: rest =>
    if arg = "--" then g.operands s rest
    else match g.argument s arg with
      | .next s' => parse g s' rest
      | .decided r => r
      | .waiting set s' =>
        match rest with
        | [] => .misuse
        | v :: rest =>
          if isValue v then
            match set v s' with
            | some s'' => parse g s'' rest
            | none => .misuse
          else .misuse

end Grammar
end SC32.Command
