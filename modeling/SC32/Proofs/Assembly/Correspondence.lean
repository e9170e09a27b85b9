import SC32.Proofs.Assembly.Concatenation

/-!
# Texts that correspond

Two texts correspond when their lines that are not blank do, one by one: labels and operands may have
other names, and the lines may stand elsewhere in the text. Both are then assembled to the same
words, or both fail with faults that correspond. Main statements: the table of either text, the word
of either line, and assembly.
-/
namespace SC32

/-- The instruction with another offset. -/
def Instruction.map {ι κ : Type} (g : ι → κ) : Instruction ι → Instruction κ
  | add a b d => add a b d
  | nand a b d => nand a b d
  | lw a b off => lw a b (g off)
  | sw a b off => sw a b (g off)
  | beq a b off => beq a b (g off)
  | jalr a b => jalr a b
  | halt => halt
  | noop => noop

namespace Assembly

/-! ### Other names and other places -/

/-- The statement with another operand. -/
def Statement.map (g : Operand → Operand) : Statement → Statement
  | code i => code (i.map g)
  | fill x => fill (g x)

namespace Fault

/-- The same fault of a line whose label is another one. -/
def rename (f : String → String) : Fault → Fault
  | duplicateLabel l first => duplicateLabel (f l) first
  | missingOperation l => missingOperation (f l)
  | e => e

/-- The other line that a fault speaks of. -/
def first? : Fault → Option Nat
  | duplicateLabel _ first => some first
  | _ => none

/-- The second fault is the first one where labels are renamed by `f` and `ρ` says which lines
correspond. -/
inductive Corresponds (f : String → String) (ρ : Nat → Nat → Prop) : Fault → Fault → Prop where
  | redefined (l : String) {n n' : Nat} (h : ρ n n') :
    Corresponds f ρ (duplicateLabel l n) (duplicateLabel (f l) n')
  | own {e : Fault} (h : e.first? = none) : Corresponds f ρ e (e.rename f)

end Fault

structure LineFault.Corresponds (f : String → String) (ρ : Nat → Nat → Prop) (x y : LineFault) :
    Prop where
  line : ρ x.line y.line
  fault : x.fault.Corresponds f ρ y.fault

/-- The lines say the same where labels are renamed by `f` and operands by `g`. -/
structure Line.Corresponds (f g : String → String) (l l' : Line) : Prop where
  label : l'.label = l.label.map f
  statement : l'.statement = (l.statement.map (Statement.map g)).mapError (Fault.rename f)

/-- Corresponding lines at the same address. -/
structure Placed.Corresponds (f g : String → String) (ρ : Nat → Nat → Prop) (p q : Placed) :
    Prop where
  line : ρ p.line q.line
  address : q.address = p.address
  content : p.content.Corresponds f g q.content

structure Definition.Corresponds (ρ : Nat → Nat → Prop) (d d' : Definition) : Prop where
  line : ρ d.line d'.line
  address : d'.address = d.address

/-- The tables define corresponding labels in the same order. The labels are all in `names`. -/
structure SymbolTable.Corresponds (names : List String) (f : String → String)
    (ρ : Nat → Nat → Prop) (t u : SymbolTable) : Prop where
  known : ∀ x ∈ t.entries, x.1 ∈ names
  entries : List.Forall₂ (fun x y => y.1 = f x.1 ∧ x.2.Corresponds ρ y.2) t.entries u.entries

/-- Labels keep apart under `f`, and `g` renames an operand as `f` does if it is a label. Another
operand keeps its name and does not come to be a label. -/
structure Consistent (f g : String → String) (source : List String) : Prop where
  injective : ∀ l ∈ defined source, ∀ k ∈ defined source, f l = f k → l = k
  label : ∀ x ∈ operands Statement.immediate? source, x ∈ defined source → g x = f x
  literal : ∀ x ∈ operands Statement.immediate? source, x ∉ defined source →
    g x = x ∧ ∀ l ∈ defined source, f l ≠ x

variable {f g : String → String} {ρ : Nat → Nat → Prop} {t u : SymbolTable} {names : List String}
  {source source' : List String}

/-! ### The first pass -/

theorem lookup_corresponds {es es' : List (String × Definition)} {l : String}
    (h : List.Forall₂ (fun x y => y.1 = f x.1 ∧ x.2.Corresponds ρ y.2) es es')
    (hinj : ∀ x ∈ es, f x.1 = f l → x.1 = l) :
    Option.Rel (Definition.Corresponds ρ) (es.lookup l) (es'.lookup (f l)) := by
  induction h with
  | nil => exact .none
  | @cons x y es es' hxy _ ih =>
    obtain ⟨k, d⟩ := x
    obtain ⟨k', d'⟩ := y
    obtain ⟨rfl, hdef⟩ := hxy
    obtain ⟨hk, hes⟩ := List.forall_mem_cons.mp hinj
    by_cases hl : k = l
    · subst hl
      simpa only [List.lookup_cons_self] using .some hdef
    · have hne : f l ≠ f k := fun he => hl (hk he.symm)
      simpa only [List.lookup_cons, beq_false_of_ne hne, beq_false_of_ne (Ne.symm hl)] using ih hes

/-- A new label is entered behind the others. -/
theorem entries_insert {l : String} (h : t.find? l = none) (d : Definition) :
    (t.insert l d).entries = t.entries ++ [(l, d)] := by
  have hbind : ∀ es : List (String × Definition), es.lookup l = none →
      SymbolTable.bind l d es = es ++ [(l, d)] := by
    intro es
    induction es with
    | nil => simp [SymbolTable.bind]
    | cons e es ih => grind [SymbolTable.bind]
  exact hbind t.entries h

/-- Lines that correspond are entered into tables that correspond, or their labels are both in the
table already. -/
theorem define_corresponds (hinj : ∀ l ∈ names, ∀ k ∈ names, f l = f k → l = k)
    (h : SymbolTable.Corresponds names f ρ t u) {p q : Placed} (hpq : p.Corresponds f g ρ q)
    (hp : ∀ l, p.content.label = some l → l ∈ names) :
    Alike (SymbolTable.Corresponds names f ρ) (LineFault.Corresponds f ρ) (define t p)
      (define u q) := by
  unfold define
  rw [hpq.content.label]
  cases hlabel : p.content.label with
  | none => exact .ok h
  | some l =>
    have hl := hp l hlabel
    have hfind : Option.Rel (Definition.Corresponds ρ) (t.find? l) (u.find? (f l)) :=
      lookup_corresponds h.entries fun x hx he => hinj _ (h.known x hx) l hl he
    cases ht : t.find? l with
    | some d =>
      rw [ht] at hfind
      cases hu : u.find? (f l) with
      | none =>
        rw [hu] at hfind
        cases hfind
      | some d' =>
        rw [hu] at hfind
        cases hfind with
        | some hd => simpa [ht, hu] using .error ⟨hpq.line, .redefined l hd.line⟩
    | none =>
      rw [ht] at hfind
      cases hu : u.find? (f l) with
      | some d' =>
        rw [hu] at hfind
        cases hfind
      | none =>
        simp only [ht, hu, Option.map_some]
        refine .ok ⟨?_, ?_⟩
        · rw [entries_insert ht, List.forall_mem_append, List.forall_mem_singleton]
          exact ⟨h.known, hl⟩
        · rw [entries_insert ht, entries_insert hu]
          exact List.rel_append h.entries (.cons ⟨rfl, hpq.line, hpq.address⟩ .nil)

theorem collect_corresponds (hnames : Consistent f g source)
    (h : List.Forall₂ (Placed.Corresponds f g ρ) (place source) (place source')) :
    Alike (SymbolTable.Corresponds (defined source) f ρ) (LineFault.Corresponds f ρ)
      (collect source) (collect source') := by
  have hknown : ∀ p ∈ place source, ∀ l, p.content.label = some l → l ∈ defined source :=
    fun _ hp _ => mem_defined_of_mem_place hp
  have hempty : SymbolTable.Corresponds (defined source) f ρ .empty .empty :=
    ⟨List.forall_mem_nil _, .nil⟩
  refine Alike.foldlM ((List.forall₂_and_left _ _).mpr ⟨hknown, h⟩) ?_ hempty
  intro t u p q htu hpq
  exact define_corresponds hnames.injective htu hpq.2 hpq.1

/-! ### The second pass -/

theorem lookup_eq_none_of_corresponds {es es' : List (String × Definition)} {k : String}
    (h : List.Forall₂ (fun x y => y.1 = f x.1 ∧ x.2.Corresponds ρ y.2) es es')
    (hk : ∀ x ∈ es, f x.1 ≠ k) : es'.lookup k = none := by
  induction h with
  | nil => rfl
  | @cons x y es es' hxy _ ih =>
    obtain ⟨k', d'⟩ := y
    obtain ⟨rfl, -⟩ := hxy
    obtain ⟨hx, hes⟩ := List.forall_mem_cons.mp hk
    simpa only [List.lookup_cons, beq_false_of_ne (Ne.symm hx)] using ih hes

theorem map_address_of_rel {o o' : Option Definition}
    (h : Option.Rel (Definition.Corresponds ρ) o o') :
    o'.map Definition.address = o.map Definition.address := by
  cases h with
  | none => rfl
  | some h => simp [h.address]

/-- An operand stands for the same under its new name. -/
theorem target_corresponds (hnames : Consistent f g source) (ht : collect source = .ok t)
    (h : SymbolTable.Corresponds (defined source) f ρ t u) {x : Operand}
    (hx : x ∈ operands Statement.immediate? source) : u.target (g x) = t.target x := by
  by_cases hd : x ∈ defined source
  · have haddress : u.address? (f x) = t.address? x :=
      map_address_of_rel (lookup_corresponds h.entries
        fun y hy he => hnames.injective _ (h.known y hy) x hd he)
    have hsome : t.address? x ≠ none := fun hnone => (address?_eq_none_iff ht x).mp hnone hd
    rw [hnames.label x hx hd, SymbolTable.target, SymbolTable.target, haddress]
    cases hn : t.address? x with
    | none => exact absurd hn hsome
    | some a => rfl
  · obtain ⟨hsame, hfree⟩ := hnames.literal x hx hd
    have hu : u.address? x = none := by
      rw [SymbolTable.address?, SymbolTable.find?, lookup_eq_none_of_corresponds h.entries]
      · rfl
      · exact fun y hy => hfree _ (h.known y hy)
    rw [hsame]
    exact target_congr (hu.trans ((address?_eq_none_iff ht x).mpr hd).symm)

/-- A statement has the same word when its operand stands for the same. -/
theorem word_map {s : Statement} (a : Nat)
    (h : ∀ x, s.immediate? = some x → u.target (g x) = t.target x) :
    (s.map g).word u a = s.word t a := by
  cases s with
  | fill x => simp only [Statement.map, Statement.word, h x rfl]
  | code i =>
    cases i with
    | lw _ _ x | sw _ _ x | beq _ _ x =>
      simp only [Statement.map, Instruction.map, Statement.word, resolve, h x rfl]
    | add | nand | jalr | halt | noop => rfl

/-! ### Faults of one line -/

/-- If the computation fails, its fault is of that kind. -/
def FailsOnly {α : Type} (kind : Fault → Prop) (x : Except Fault α) : Prop :=
  ∀ e, x = .error e → kind e

section
variable {α β : Type} {kind : Fault → Prop}

theorem failsOnly_ok (a : α) : FailsOnly kind (.ok a) := fun _ h => nomatch h

theorem failsOnly_error {e : Fault} (h : kind e) : FailsOnly kind (.error e : Except Fault α) := by
  intro e' he
  cases he
  exact h

theorem FailsOnly.bind {x : Except Fault α} {k : α → Except Fault β} (hx : FailsOnly kind x)
    (hk : ∀ a, FailsOnly kind (k a)) : FailsOnly kind (x >>= k) := by
  intro e he
  obtain h | ⟨a, -, h⟩ := (bind_eq_error_iff x k e).mp he
  · exact hx e h
  · exact hk a e h

theorem FailsOnly.map {x : Except Fault α} (hx : FailsOnly kind x) (k : α → β) :
    FailsOnly kind (x.map k) := by
  cases x with
  | ok a => exact failsOnly_ok (k a)
  | error e => exact failsOnly_error (hx e rfl)

end

theorem failsOnly_register (x : String) :
    FailsOnly (fun e => e.first? = none) (Statement.register x) := by
  unfold Statement.register
  split
  · exact failsOnly_ok _
  · exact failsOnly_error rfl

theorem failsOnly_instruction (k : Mnemonic) (xs : List String) :
    FailsOnly (fun e => e.first? = none) (Statement.instruction k xs) := by
  have hregister := failsOnly_register
  unfold Statement.instruction
  split
  case h_1 | h_2 =>
    exact (hregister _).bind fun _ => (hregister _).bind fun _ => (hregister _).bind fun _ =>
      failsOnly_ok _
  case h_3 | h_4 | h_5 | h_6 =>
    exact (hregister _).bind fun _ => (hregister _).bind fun _ => failsOnly_ok _
  case h_7 | h_8 => exact failsOnly_ok _
  case h_9 => exact failsOnly_error rfl

/-- That a line is no statement has nothing to do with another line. -/
theorem failsOnly_statement (l : Line) : FailsOnly (fun e => e.first? = none) l.statement := by
  unfold Line.statement Statement.ofOperation
  split
  · split
    · split
      · exact failsOnly_ok _
      · exact failsOnly_error rfl
    · split
      · exact (failsOnly_instruction _ _).map _
      · exact failsOnly_error rfl
  · exact failsOnly_error rfl

/-- The fault of an operand. -/
def Fault.IsOperand : Fault → Prop
  | undefinedOperand _ | offsetOutOfRange _ => True
  | _ => False

theorem failsOnly_target (t : SymbolTable) (x : Operand) :
    FailsOnly Fault.IsOperand (t.target x) := by
  unfold SymbolTable.target
  split
  · exact failsOnly_ok _
  · split
    · exact failsOnly_ok _
    · exact failsOnly_error trivial

theorem failsOnly_offset (n : Int) : FailsOnly Fault.IsOperand (offset n) := by
  unfold offset
  split
  · exact failsOnly_ok _
  · exact failsOnly_error trivial

theorem failsOnly_word (t : SymbolTable) (a : Nat) (s : Statement) :
    FailsOnly Fault.IsOperand (s.word t a) := by
  cases s with
  | fill x => exact (failsOnly_target t x).map _
  | code i =>
    refine FailsOnly.map ?_ _
    cases i with
    | lw _ _ x | sw _ _ x | beq _ _ x =>
      exact (failsOnly_target t x).bind fun _ => (failsOnly_offset _).bind fun _ => failsOnly_ok _
    | add | nand | jalr | halt | noop => exact failsOnly_ok _

/-- The fault of an operand names no label and no line. -/
theorem Fault.IsOperand.corresponds {e : Fault} (h : e.IsOperand) :
    Fault.Corresponds f ρ e e := by
  cases e with
  | undefinedOperand | offsetOutOfRange => exact .own rfl
  | duplicateLabel | invalidOpcode | missingOperation | missingArgument | invalidRegister =>
    exact absurd h id

/-! ### Both passes -/

theorem placed_word_corresponds (hnames : Consistent f g source) (ht : collect source = .ok t)
    (h : SymbolTable.Corresponds (defined source) f ρ t u) {p q : Placed} (hp : p ∈ place source)
    (hpq : p.Corresponds f g ρ q) :
    Alike Eq (LineFault.Corresponds f ρ) (p.word t) (q.word u) := by
  rw [Placed.word, Placed.word, hpq.content.statement, hpq.address]
  cases hs : p.content.statement with
  | error e => exact .error ⟨hpq.line, .own (failsOnly_statement _ e hs)⟩
  | ok s =>
    have hword : (s.map g).word u p.address = s.word t p.address :=
      word_map p.address fun x hx => target_corresponds hnames ht h (mem_operands hp hs hx)
    change Alike _ _ ((s.word t p.address).mapError _) (((s.map g).word u p.address).mapError _)
    rw [hword]
    cases hw : s.word t p.address with
    | ok w => exact .ok rfl
    | error e => exact .error ⟨hpq.line, (failsOnly_word t _ s e hw).corresponds⟩

theorem emit_corresponds (hnames : Consistent f g source) (ht : collect source = .ok t)
    (h : SymbolTable.Corresponds (defined source) f ρ t u)
    (hplace : List.Forall₂ (Placed.Corresponds f g ρ) (place source) (place source')) :
    Alike Eq (LineFault.Corresponds f ρ) (emit t source) (emit u source') := by
  have hmem : ∀ p ∈ place source, p ∈ place source := fun _ hp => hp
  refine Alike.mapM ((List.forall₂_and_left _ _).mpr ⟨hmem, hplace⟩) ?_
  intro p q hpq
  exact placed_word_corresponds hnames ht h hpq.1 hpq.2

theorem assemble_corresponds (hnames : Consistent f g source)
    (hplace : List.Forall₂ (Placed.Corresponds f g ρ) (place source) (place source')) :
    Alike Eq (LineFault.Corresponds f ρ) (assemble source) (assemble source') := by
  have hcollect := collect_corresponds hnames hplace
  unfold assemble
  cases ht : collect source <;> cases hu : collect source' <;> rw [ht, hu] at hcollect
  case error.error =>
    cases hcollect with
    | error hx => exact .error hx
  case ok.ok =>
    cases hcollect with
    | ok htu => exact emit_corresponds hnames ht htu hplace
  all_goals cases hcollect

end Assembly
end SC32
