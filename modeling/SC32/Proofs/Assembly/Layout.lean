import Mathlib.Logic.Relation
import SC32.Proofs.Assembly.Correspondence
import SC32.Proofs.Assembly.Line
import SC32.Proofs.Text.Lines
import SC32.Proofs.Text.Tokens

/-!
# Layout

Blank lines, blanks around tokens, the characters that end a line and tokens behind the operands that
a line needs do not change what a text is assembled to. Main statements: a line without what it does
not need, texts whose lines need the same, and texts that differ in their layout.
-/
namespace SC32.Assembly

open Text

/-- How many operands the operation needs, if there is one of that name. -/
def arity? (op : String) : Option Nat :=
  if op = fill then some 1 else (Mnemonic.ofName op).toOption.map fun k => k.shape.arity

/-- The tokens are those of a line that has all the operands it needs. -/
def Complete (ts : List String) : Prop :=
  ∃ l op n, Line.ofTokens? ts = some l ∧ l.operation = some op ∧ arity? op = some n ∧
    n ≤ l.operands.length

/-- The tokens are the same, but behind a complete line there may be any others. -/
inductive SameTokens : List String → List String → Prop where
  | same (ts : List String) : SameTokens ts ts
  | behind {ts : List String} (h : Complete ts) (xs ys : List String) :
    SameTokens (ts ++ xs) (ts ++ ys)

/-- The tokens of the lines that are not blank. -/
def tokenLines (source : List String) : List (List String) :=
  (source.map tokens).filter fun ts => ts ≠ []

/-- The texts differ in their layout only. -/
def SameText (p q : List String) : Prop := List.Forall₂ SameTokens (tokenLines p) (tokenLines q)

/-- There is nothing in the text but blanks. -/
def Blank (s : String) : Prop := ∀ c ∈ s.toList, isBlank c = true

/-- One change of the layout. -/
inductive Relaid : List String → List String → Prop where
  /-- There is one more blank line. -/
  | blank (before behind : List String) {raw : String} (h : Blank raw) :
    Relaid (before ++ behind) (before ++ raw :: behind)
  /-- There are blanks before and behind a line. -/
  | indented (before behind : List String) (raw : String) {left right : String} (hl : Blank left)
    (hr : Blank right) : Relaid (before ++ raw :: behind) (before ++ (left ++ raw ++ right) :: behind)
  /-- Something that is set off by a blank stands behind a complete line. -/
  | comment (before behind : List String) {raw comment : String} (hraw : Complete (tokens raw))
    (h : Breaks comment.toList) :
    Relaid (before ++ raw :: behind) (before ++ (raw ++ comment) :: behind)
  /-- A carriage return stands before a line feed. -/
  | ending (before behind : String) :
    Relaid (lines (before ++ "\n" ++ behind)) (lines (before ++ "\r\n" ++ behind))

/-- The lines under these numbers stand at the same address, so they are the same of the lines that
are not blank. -/
structure Counterpart (p q : List String) (i j : Nat) : Prop where
  left : ∃ l, LineAt p i l
  right : ∃ l, LineAt q j l
  address : addressOf p i = addressOf q j

/-- The labels of a table with their addresses, in the order of the table. -/
def SymbolTable.addresses (t : SymbolTable) : List (String × Nat) :=
  t.entries.map fun x => (x.1, x.2.address)

/-- The texts are assembled to the same words, with the same labels at the same addresses, or fail in
the same way at the same of their lines that are not blank. -/
inductive SameOutcome (p q : List String) : Prop where
  | assembled {ws : List Word} {t u : SymbolTable} (hp : assemble p = .ok ws)
    (hq : assemble q = .ok ws) (ht : collect p = .ok t) (hu : collect q = .ok u)
    (addresses : t.addresses = u.addresses)
  | failed {x y : LineFault} (hp : assemble p = .error x) (hq : assemble q = .error y)
    (h : x.Corresponds id (Counterpart p q) y)

/-- The line without operands that it does not need. -/
def Line.needed (l : Line) : Line where
  label := l.label
  operation := l.operation
  operands :=
    match l.operation.bind arity? with
    | some n => l.operands.take n
    | none => l.operands

variable {p q : List String}

/-! ### What a line needs -/

theorem instruction_take (k : Mnemonic) (xs : List String) :
    Statement.instruction k (xs.take k.shape.arity) = Statement.instruction k xs := by
  match xs with
  | a :: b :: d :: xs => cases k <;> rfl
  | [a, b] | [a] | [] => cases k <;> rfl

theorem statement_needed (l : Line) : l.needed.statement = l.statement := by
  cases hop : l.operation with
  | none => simp only [Line.statement, Line.needed, hop]
  | some op =>
    simp only [Line.statement, Line.needed, hop, Option.bind_some]
    unfold Statement.ofOperation arity?
    by_cases hfill : op = fill
    · simp only [if_pos hfill]
      cases l.operands <;> rfl
    · simp only [if_neg hfill]
      cases Mnemonic.ofName op with
      | error e => rfl
      | ok k => exact congrArg (Except.map Statement.code) (instruction_take k l.operands)

theorem Statement.map_id (s : Statement) : s.map id = s := by
  cases s with
  | fill x => rfl
  | code i => cases i <;> rfl

theorem Fault.rename_id (e : Fault) : e.rename id = e := by
  cases e <;> rfl

/-- Lines that need the same say the same. -/
theorem corresponds_of_needed {l l' : Line} (h : l.needed = l'.needed) :
    l.Corresponds id id l' := by
  have hlabel : l.needed.label = l'.needed.label := by rw [h]
  have hstatement : l'.statement = l.statement := by
    rw [← statement_needed l', ← h, statement_needed l]
  constructor
  · rw [Option.map_id]
    exact hlabel.symm
  · rw [hstatement]
    cases l.statement with
    | ok s => exact congrArg _ (Statement.map_id s).symm
    | error e => exact congrArg _ (Fault.rename_id e).symm

/-- More tokens are more operands if there is an operation. -/
theorem ofTokens?_append {ts : List String} {l : Line} {op : String}
    (h : Line.ofTokens? ts = some l) (hop : l.operation = some op) (xs : List String) :
    Line.ofTokens? (ts ++ xs) = some ⟨l.label, l.operation, l.operands ++ xs⟩ := by
  obtain ⟨rfl, hproper⟩ := (ofTokens?_eq_some_iff ts l).mp h
  rw [ofTokens?_eq_some_iff]
  refine ⟨by simp [Line.tokens], hproper.label, hproper.operation, ?_⟩
  intro hnone
  rw [hop] at hnone
  cases hnone

/-- What stands behind a complete line is not needed. -/
theorem needed_of_complete {ts : List String} (h : Complete ts) (xs : List String) :
    (Line.ofTokens? (ts ++ xs)).map Line.needed = (Line.ofTokens? ts).map Line.needed := by
  obtain ⟨l, op, n, hl, hop, hn, hle⟩ := h
  rw [ofTokens?_append hl hop, hl]
  simp [Line.needed, hop, hn, List.take_append_of_le_length hle]

theorem needed_of_sameTokens {ts us : List String} (h : SameTokens ts us) :
    (Line.ofTokens? ts).map Line.needed = (Line.ofTokens? us).map Line.needed := by
  cases h with
  | same => rfl
  | behind h xs ys => rw [needed_of_complete h, needed_of_complete h]

/-! ### What a text needs -/

/-- The lines that are not blank, without what they do not need. -/
def needed (source : List String) : List Line := (addressed source).map Line.needed

theorem needed_append (p q : List String) : needed (p ++ q) = needed p ++ needed q := by
  rw [needed, addressed_append, List.map_append, needed, needed]

theorem needed_eq_filterMap (source : List String) :
    needed source =
      (source.map tokens).filterMap fun ts => (Line.ofTokens? ts).map Line.needed := by
  rw [needed, addressed, List.map_filterMap, List.filterMap_map]
  rfl

theorem needed_eq_filterMap_tokenLines (source : List String) :
    needed source =
      (tokenLines source).filterMap fun ts => (Line.ofTokens? ts).map Line.needed := by
  rw [needed_eq_filterMap, tokenLines, List.filterMap_filter]
  congr 1
  funext ts
  cases ts <;> simp [Line.ofTokens?]

theorem needed_of_sameText (h : SameText p q) : needed p = needed q := by
  rw [needed_eq_filterMap_tokenLines, needed_eq_filterMap_tokenLines]
  unfold SameText at h
  generalize tokenLines p = ps at h
  generalize tokenLines q = qs at h
  induction h with
  | nil => rfl
  | cons h _ ih => rw [List.filterMap_cons, List.filterMap_cons, needed_of_sameTokens h, ih]

theorem needed_cons (raw : String) (source : List String) :
    needed (raw :: source) =
      ((Line.ofTokens? (tokens raw)).map Line.needed).toList ++ needed source := by
  rw [needed_eq_filterMap, List.map_cons, List.filterMap_cons, needed_eq_filterMap]
  cases (Line.ofTokens? (tokens raw)).map Line.needed <;> rfl

/-! ### Changes of the layout -/

theorem tokens_of_blank {s : String} (h : Blank s) : tokens s = [] := by
  rw [tokens, words_of_blank h, List.map_nil]

theorem tokens_indented {left right : String} (hl : Blank left) (hr : Blank right) (raw : String) :
    tokens (left ++ raw ++ right) = tokens raw := by
  rw [tokens, String.toList_append, String.toList_append, words_append_blank _ hr,
    words_append_of_blank hl, tokens]

theorem tokens_append_of_breaks (raw : String) {comment : String} (h : Breaks comment.toList) :
    tokens (raw ++ comment) = tokens raw ++ tokens comment := by
  rw [tokens, String.toList_append, words_append_of_breaks _ h, List.map_append, tokens, tokens]

/-- What ends a line is blank. -/
theorem words_unterminated (l : List Char) : words (unterminated l) = words l := by
  have hlf : ∀ b ∈ ['\n'], isBlank b = true := List.all_eq_true.mp (by decide)
  have hcrlf : ∀ b ∈ ['\r', '\n'], isBlank b = true := List.all_eq_true.mp (by decide)
  unfold unterminated
  split
  · next r h =>
    have hl : l = r.reverse ++ ['\r', '\n'] := by simpa using congrArg List.reverse h
    rw [hl, words_append_blank _ hcrlf]
  · next r _ h =>
    have hl : l = r.reverse ++ ['\n'] := by simpa using congrArg List.reverse h
    rw [hl, words_append_blank _ hlf]
  · rfl

theorem map_tokens_lines (s : String) :
    (lines s).map tokens = (segments s.toList).map fun l => (words l).map String.ofList := by
  rw [lines, List.map_map]
  congr 1
  funext l
  simp [tokens, words_unterminated]

theorem map_tokens_ending (before behind : String) :
    (lines (before ++ "\r\n" ++ behind)).map tokens =
      (lines (before ++ "\n" ++ behind)).map tokens := by
  obtain ⟨ls, l, hseg⟩ := exists_segments_append before.toList
  have hl : (before ++ "\r\n").toList = before.toList ++ ['\r', '\n'] := by simp
  have hr : (before ++ "\n").toList = before.toList ++ ['\n'] := by simp
  have hsplit : before ++ "\r\n" ++ behind = (before ++ "\r") ++ "\n" ++ behind := by
    simp [String.append_assoc]
  have hjoin : before ++ "\r" ++ "\n" = before ++ "\r\n" := by
    simp [String.append_assoc]
  have hlf : words (l ++ ['\n']) = words l :=
    words_append_blank l (List.all_eq_true.mp (by decide))
  have hcrlf : words (l ++ ['\r', '\n']) = words l :=
    words_append_blank l (List.all_eq_true.mp (by decide))
  rw [hsplit, lines_append, lines_append, List.map_append, List.map_append, hjoin,
    map_tokens_lines (before ++ "\r\n"), map_tokens_lines (before ++ "\n"), hl, hr,
    hseg _ rfl, hseg _ rfl]
  simp [hlf, hcrlf]

theorem needed_of_relaid (h : Relaid p q) : needed p = needed q := by
  cases h with
  | blank before behind h =>
    rw [needed_append, needed_append, needed_cons, tokens_of_blank h]
    rfl
  | indented before behind raw hl hr =>
    rw [needed_append, needed_append, needed_cons, needed_cons, tokens_indented hl hr]
  | comment before behind hraw h =>
    rw [needed_append, needed_append, needed_cons, needed_cons, tokens_append_of_breaks _ h,
      needed_of_complete hraw]
  | ending before behind =>
    rw [needed_eq_filterMap, needed_eq_filterMap, map_tokens_ending]

theorem needed_of_eqvGen (h : Relation.EqvGen Relaid p q) : needed p = needed q := by
  induction h with
  | rel p q h => exact needed_of_relaid h
  | refl p => rfl
  | symm p q _ ih => exact ih.symm
  | trans p q r _ _ ihpq ihqr => exact ihpq.trans ihqr

/-! ### Assembly -/

theorem consistent_id (source : List String) : Consistent id id source := by
  constructor
  case injective => exact fun _ _ _ _ h => h
  case label => exact fun _ _ _ => rfl
  case literal =>
    intro x _ hx
    refine ⟨rfl, ?_⟩
    rintro l hl rfl
    exact hx hl

/-- Texts that need the same have corresponding lines at the same addresses. -/
theorem forall₂_place (h : needed p = needed q) :
    List.Forall₂ (Placed.Corresponds id id (Counterpart p q)) (place p) (place q) := by
  have hlength : ∀ source, (place source).length = (needed source).length := by
    intro source
    rw [needed, List.length_map, ← map_content_place, List.length_map]
  rw [List.forall₂_iff_get]
  refine ⟨by rw [hlength, hlength, h], ?_⟩
  intro a hp hq
  simp only [List.get_eq_getElem]
  have hx := List.getElem?_eq_getElem hp
  have hy := List.getElem?_eq_getElem hq
  generalize (place p)[a] = x at hx ⊢
  generalize (place q)[a] = y at hy ⊢
  have hneeded : x.content.needed = y.content.needed := by
    have ha : (needed p)[a]? = (needed q)[a]? := by rw [h]
    rw [needed, needed, List.getElem?_map, List.getElem?_map, content_of_getElem?_place hx,
      content_of_getElem?_place hy] at ha
    exact Option.some.inj ha
  have haddress : y.address = x.address :=
    (address_of_getElem?_place hy).trans (address_of_getElem?_place hx).symm
  obtain ⟨hlx, hax⟩ := (mem_place_iff p x).mp (List.mem_of_getElem? hx)
  obtain ⟨hly, hay⟩ := (mem_place_iff q y).mp (List.mem_of_getElem? hy)
  exact ⟨⟨⟨_, hlx⟩, ⟨_, hly⟩, by rw [← hax, ← hay, haddress]⟩, haddress,
    corresponds_of_needed hneeded⟩

theorem addresses_of_corresponds {names : List String} {ρ : Nat → Nat → Prop} {t u : SymbolTable}
    (h : SymbolTable.Corresponds names id ρ t u) : t.addresses = u.addresses := by
  have hentries := h.entries
  unfold SymbolTable.addresses
  generalize t.entries = es at hentries
  generalize u.entries = es' at hentries
  induction hentries with
  | nil => rfl
  | cons h _ ih => rw [List.map_cons, List.map_cons, ih, h.1, h.2.address, id]

theorem sameOutcome_of_needed (h : needed p = needed q) : SameOutcome p q := by
  have hplace := forall₂_place h
  have hassemble := assemble_corresponds (consistent_id p) hplace
  have hcollect := collect_corresponds (consistent_id p) hplace
  cases hp : assemble p <;> cases hq : assemble q <;> rw [hp, hq] at hassemble <;> cases hassemble
  case ok.ok.ok heq =>
    subst heq
    obtain ⟨t, ht, -⟩ := (assemble_eq_ok_iff p _).mp hp
    obtain ⟨u, hu, -⟩ := (assemble_eq_ok_iff q _).mp hq
    rw [ht, hu] at hcollect
    cases hcollect with
    | ok htu => exact .assembled hp hq ht hu (addresses_of_corresponds htu)
  case error.error.error hxy => exact .failed hp hq hxy

/-- Texts that differ in their layout only, and texts that changes of the layout lead from one to the
other, in whatever number and direction, are assembled with the same outcome. -/
theorem layout_exact (p q : List String) :
    (SameText p q → SameOutcome p q) ∧ (Relation.EqvGen Relaid p q → SameOutcome p q) :=
  ⟨fun h => sameOutcome_of_needed (needed_of_sameText h),
    fun h => sameOutcome_of_needed (needed_of_eqvGen h)⟩

/-- A program that defines its label twice. -/
def twice : List String := ["a noop", "a halt"]

/-- The same program, spread out and with a remark. -/
def spread : List String := ["", "a noop  once", " \t", "\ta halt\r"]

theorem layout_exact_twice :
    SameText twice spread ∧ SameOutcome twice spread ∧
    assemble twice = .error ⟨1, .duplicateLabel "a" 0⟩ ∧
    assemble spread = .error ⟨3, .duplicateLabel "a" 1⟩ ∧
    Relation.EqvGen Relaid twice ("" :: twice) ∧ SameOutcome twice ("" :: twice) := by
  have htwice : tokenLines twice = [["a", "noop"], ["a", "halt"]] := by decide +kernel
  have hspread : tokenLines spread = [["a", "noop", "once"], ["a", "halt"]] := by decide +kernel
  have hcomplete : Complete ["a", "noop"] :=
    ⟨⟨some "a", some "noop", []⟩, "noop", 0, rfl, rfl, rfl, Nat.le_refl 0⟩
  have hsame : SameText twice spread := by
    unfold SameText
    rw [htwice, hspread]
    exact .cons (.behind hcomplete [] ["once"]) (.cons (.same _) .nil)
  have hrelaid : Relation.EqvGen Relaid twice ("" :: twice) :=
    .rel _ _ (.blank [] twice (by simp [Blank]))
  exact ⟨hsame, (layout_exact twice spread).1 hsame, by decide +kernel, by decide +kernel, hrelaid,
    (layout_exact twice ("" :: twice)).2 hrelaid⟩

end SC32.Assembly
