import SC32.Proofs.Assembly.Renaming

/-!
# What is read of a symbol table

The second pass asks a symbol table for the immediate operands of the text and for nothing else. A
label that none of them names may therefore be put in front of a line: the first pass enters it and
leaves all other labels where they are, and the program is the same. Main statements: the second
pass under another table, the table of a text with one more label, and what both texts are assembled
to.
-/
namespace SC32.Assembly

open Text

/-- The tables say the same of every label other than `name`. -/
def SymbolTable.AgreeApart (name : String) (t u : SymbolTable) : Prop :=
  ∀ l, l ≠ name → u.find? l = t.find? l

/-- The line `raw'` has the label `name` in front of what `raw` says, which has no label. -/
structure Labelling (name raw raw' : String) : Prop where
  unlabelled : ∃ l, Line.parse? raw = some l ∧ l.label = none
  tokens : Text.tokens raw' = name :: Text.tokens raw

/-- The token is free to be a label of the text and means nothing there: it stands for no operation,
no line defines it, and no immediate operand names it. -/
structure Unused (name : String) (source : List String) : Prop where
  operation : name ∉ operationNames
  undefined : name ∉ defined source
  unnamed : name ∉ immediates source

variable {name raw raw' : String} {front rest source : List String} {t u : SymbolTable}

/-! ### The second pass -/

theorem placed_word_congr (h : ∀ x ∈ immediates source, u.address? x = t.address? x) {p : Placed}
    (hp : p ∈ place source) : p.word u = p.word t := by
  rw [Placed.word, Placed.word]
  cases hs : p.content.statement with
  | error e => rfl
  | ok s =>
    have hword : s.word u p.address = s.word t p.address := by
      refine word_congr p.address ?_
      intro x hx
      exact target_congr (h x (mem_immediates_of_mem_operands (mem_operands hp hs hx)))
    change (s.word u p.address).mapError _ = (s.word t p.address).mapError _
    rw [hword]

/-- The second pass looks up the immediate operands of the text only. -/
theorem emit_congr (h : ∀ x ∈ immediates source, u.address? x = t.address? x) :
    emit u source = emit t source := by
  have hwords : (place source).map (Placed.word u) = (place source).map (Placed.word t) :=
    List.map_congr_left fun _ hp => placed_word_congr h hp
  have hid : ∀ v : SymbolTable, emit v source = ((place source).map (Placed.word v)).mapM id := by
    intro v
    rw [List.mapM_map]
    rfl
  rw [hid u, hwords, ← hid t]

/-! ### The line with the label -/

/-- The label is all that the line has more. -/
theorem parse?_of_labelling (hname : isOperation name = false) (h : Labelling name raw raw') :
    ∃ l, Line.parse? raw = some l ∧ l.label = none ∧
      Line.parse? raw' = some { l with label := some name } := by
  obtain ⟨l, hl, hnone⟩ := h.unlabelled
  obtain ⟨htokens, hproper⟩ := (ofTokens?_eq_some_iff _ l).mp hl
  obtain ⟨op, hop, -⟩ := hproper.operation hnone
  refine ⟨l, hl, hnone, ?_⟩
  rw [Line.parse?, h.tokens, htokens]
  simp [Line.tokens, hnone, hop, Line.ofTokens?, hname]

/-- A token and a blank in front of a line are a label there. -/
theorem labelling_of_isToken (hname : IsToken name.toList)
    (h : ∃ l, Line.parse? raw = some l ∧ l.label = none) :
    Labelling name raw (name ++ (" " ++ raw)) :=
  ⟨h, by rw [tokens_append hname (breaks_space raw), tokens_space]⟩

/-- A label does not change what the operation and its operands say. -/
theorem statement_with_label {l : Line} {op : String} (h : l.operation = some op)
    (x : Option String) : { l with label := x }.statement = l.statement := by
  simp only [Line.statement, h]

/-- A line between others stands behind the ones in front of it, and the others where they stand
whatever it says. -/
theorem place_between {l : Line} (h : Line.parse? raw = some l) (front rest : List String) :
    place (front ++ raw :: rest) = place front ++ ⟨front.length, (addressed front).length, l⟩ ::
      (place rest).map (Placed.move (front.length + 1) ((addressed front).length + 1)) := by
  have hone : place [raw] = [⟨0, 0, l⟩] := by
    have hraw := place_concat [] raw
    rw [h] at hraw
    exact hraw
  have haddressed : addressed [raw] = [l] := List.filterMap_cons_some h
  have hmove : Placed.move front.length (addressed front).length ∘ Placed.move 1 1 =
      Placed.move (front.length + 1) ((addressed front).length + 1) := by
    funext p
    simp only [Function.comp_apply, Placed.move, Nat.add_assoc, Nat.add_comm 1]
  rw [place_append, ← List.singleton_append, place_append, hone, haddressed, List.singleton_append,
    List.map_cons, List.map_map, List.length_singleton, List.length_singleton, hmove]
  simp [Placed.move]

/-! ### The first pass -/

theorem define_agreeApart (h : t.AgreeApart name u) {p : Placed}
    (hp : p.content.label ≠ some name) :
    Alike (SymbolTable.AgreeApart name) Eq (define t p) (define u p) := by
  unfold define
  cases hl : p.content.label with
  | none => exact .ok h
  | some l =>
    have hne : l ≠ name := fun he => hp (by rw [hl, he])
    simp only [h l hne]
    cases t.find? l with
    | some d => exact .error rfl
    | none =>
      refine .ok ?_
      intro k hk
      rw [SymbolTable.find?_insert, SymbolTable.find?_insert, h k hk]

theorem foldlM_define_agreeApart {ps : List Placed} (hps : ∀ p ∈ ps, p.content.label ≠ some name)
    (h : t.AgreeApart name u) :
    Alike (SymbolTable.AgreeApart name) Eq (ps.foldlM define t) (ps.foldlM define u) := by
  have hsame : List.Forall₂ (fun p q => p.content.label ≠ some name ∧ p = q) ps ps :=
    (List.forall₂_and_left _ _).mpr ⟨hps, List.forall₂_same.mpr fun _ _ => rfl⟩
  refine Alike.foldlM hsame ?_ h
  rintro t u p q htu ⟨hp, rfl⟩
  exact define_agreeApart htu hp

/-- The label is entered besides the others, and a label that is defined again is so on the same
line. -/
theorem collect_of_labelling (hname : isOperation name = false)
    (hundefined : name ∉ defined (front ++ raw :: rest)) (h : Labelling name raw raw') :
    Alike (SymbolTable.AgreeApart name) Eq (collect (front ++ raw :: rest))
      (collect (front ++ raw' :: rest)) := by
  obtain ⟨l, hl, hnone, hl'⟩ := parse?_of_labelling hname h
  have hlabel : ∀ p ∈ place (front ++ raw :: rest), p.content.label ≠ some name :=
    fun _ hp hlabel => hundefined (mem_defined_of_mem_place hp hlabel)
  rw [place_between hl] at hlabel
  rw [collect, collect, place_between hl, place_between hl', List.foldlM_append,
    List.foldlM_append]
  cases ht : (place front).foldlM define .empty with
  | error e => exact .error rfl
  | ok t =>
    have hnew : t.find? name = none := by
      refine Option.eq_none_iff_forall_ne_some.mpr ?_
      intro d hd
      obtain h | ⟨p, hp, hpl, -⟩ := (find?_of_foldlM_define ht name d).mp hd
      · cases h
      · exact hlabel p (List.mem_append_left _ hp) hpl
    have hdefine := (define_eq_ok_iff t t ⟨front.length, (addressed front).length, l⟩).mpr
      (.inl ⟨hnone, rfl⟩)
    have hdefine' := (define_eq_ok_iff t _
      ⟨front.length, (addressed front).length, { l with label := some name }⟩).mpr
      (.inr ⟨name, rfl, hnew, rfl⟩)
    change Alike _ _ (List.foldlM define t _) (List.foldlM define t _)
    rw [List.foldlM_cons, List.foldlM_cons, hdefine, hdefine']
    refine foldlM_define_agreeApart ?_ ?_
    · intro p hp
      exact hlabel p (List.mem_append_right _ (List.mem_cons_of_mem _ hp))
    · intro k hk
      rw [SymbolTable.find?_insert, if_neg hk]

/-! ### Both passes -/

theorem emit_of_labelling (hname : isOperation name = false) (h : Labelling name raw raw')
    (t : SymbolTable) : emit t (front ++ raw' :: rest) = emit t (front ++ raw :: rest) := by
  obtain ⟨l, hl, hnone, hl'⟩ := parse?_of_labelling hname h
  obtain ⟨op, hop, -⟩ := ((ofTokens?_eq_some_iff _ l).mp hl).2.operation hnone
  have hword : ∀ n a, Placed.word t ⟨n, a, { l with label := some name }⟩ =
      Placed.word t ⟨n, a, l⟩ := by
    intro n a
    rw [Placed.word, Placed.word, statement_with_label hop]
  rw [emit, emit, place_between hl, place_between hl', List.mapM_append, List.mapM_append,
    List.mapM_cons, List.mapM_cons, hword]

theorem assemble_of_labelling (hunused : Unused name (front ++ raw :: rest))
    (h : Labelling name raw raw') :
    assemble (front ++ raw' :: rest) = assemble (front ++ raw :: rest) := by
  have hname : isOperation name = false := by
    rw [← Bool.not_eq_true, isOperation_iff]
    exact hunused.operation
  have hcollect := collect_of_labelling hname hunused.undefined h
  unfold assemble
  cases ht : collect (front ++ raw :: rest) <;> cases hu : collect (front ++ raw' :: rest) <;>
    rw [ht, hu] at hcollect
  case error.error =>
    cases hcollect with
    | error he =>
      rw [he]
      rfl
  case ok.ok t u =>
    cases hcollect with
    | ok htu =>
      change emit u _ = emit t _
      rw [emit_of_labelling hname h]
      refine emit_congr ?_
      intro x hx
      have hne : x ≠ name := fun he => hunused.unnamed (he ▸ hx)
      rw [SymbolTable.address?, htu x hne, SymbolTable.address?]
  all_goals cases hcollect

/-- Tables that give the immediate operands of a text the same addresses emit the same words for it,
or the same fault. So a label that the text does not use can be put in front of a line that has
none, and the text is assembled to the same words, or the same fault is reported. -/
theorem unused_exact :
    (∀ (t u : SymbolTable) (source : List String),
      (∀ x ∈ immediates source, u.address? x = t.address? x) → emit u source = emit t source) ∧
    ∀ (front rest : List String) (raw raw' name : String), Unused name (front ++ raw :: rest) →
      Labelling name raw raw' →
      assemble (front ++ raw' :: rest) = assemble (front ++ raw :: rest) :=
  ⟨fun _ _ _ => emit_congr, fun _ _ _ _ _ => assemble_of_labelling⟩

/-- A program in which 7 is a register and never an immediate operand. -/
def sevens : List String := ["lw 7 7 five", "", "add 7 7 7", "five .fill 5"]

/-- The program under two tables, and with the label `7` in front of the line that adds. -/
theorem unused_exact_sevens :
    Unused "7" sevens ∧ Labelling "7" "add 7 7 7" "7 add 7 7 7" ∧
    emit ((SymbolTable.empty.insert "7" ⟨2, 1⟩).insert "five" ⟨0, 2⟩) sevens =
      emit (SymbolTable.empty.insert "five" ⟨3, 2⟩) sevens ∧
    assemble ["lw 7 7 five", "", "7 add 7 7 7", "five .fill 5"] = assemble sevens ∧
    assemble sevens = .ok [0xBF0002, 0x3F0007, 5] := by
  have hunused : Unused "7" sevens := ⟨by decide, by decide +kernel, by decide +kernel⟩
  have hlabelling : Labelling "7" "add 7 7 7" "7 add 7 7 7" :=
    labelling_of_isToken ⟨by decide, not_isBlank_of_all (by decide)⟩
      ⟨⟨none, some "add", ["7", "7", "7"]⟩, by decide +kernel, rfl⟩
  exact ⟨hunused, hlabelling, unused_exact.1 _ _ _ (by decide +kernel),
    unused_exact.2 ["lw 7 7 five", ""] ["five .fill 5"] _ _ "7" hunused hlabelling,
    by decide +kernel⟩

end SC32.Assembly
