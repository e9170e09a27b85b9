import SC32.Proofs.Assembly.Correspondence
import SC32.Proofs.Assembly.Line
import SC32.Proofs.Text.Tokens

/-!
# The table of a text

The first pass enters each line that begins with a label, in source order, under its number and
under the number of lines before it that are not blank. Main statements: the entries of the table,
when there is a table, and the words at the addresses in it.
-/
namespace SC32.Assembly

open Text

/-- The label that a line begins with: its first token, unless that is an operation. -/
def labelOf? (raw : String) : Option String :=
  (tokens raw).head?.filter fun t => t ∉ operationNames

/-- There is something else than blanks on the line. -/
def hasText (raw : String) : Bool := raw.toList.any fun c => ! isBlank c

/-- How many lines before line number `i` are not blank. -/
def textBefore (source : List String) (i : Nat) : Nat := (source.take i).countP hasText

/-- An entry for each line that begins with a label, in source order. -/
def labelled (source : List String) : List (String × Definition) :=
  source.zipIdx.filterMap fun (raw, i) =>
    (labelOf? raw).map fun l => (l, ⟨i, textBefore source i⟩)

/-- The word at the address of an entry is the one that the second pass emits for its line. -/
structure Emitted (t : SymbolTable) (source : List String) (ws : List Word)
    (e : String × Definition) : Prop where
  lt_length : e.2.address < ws.length
  before : emit t (source.take e.2.line) = .ok (ws.take e.2.address)
  through : emit t (source.take (e.2.line + 1)) = .ok (ws.take (e.2.address + 1))
  word : ∃ l w, LineAt source e.2.line l ∧ l.label = some e.1 ∧ l.word t e.2.address = .ok w ∧
    ws[e.2.address]? = some w

/-- The table is that of the text. -/
structure SymbolTable.Of (source : List String) (t : SymbolTable) : Prop where
  entries : t.entries = labelled source
  token : ∀ e ∈ t.entries, IsToken e.1.toList
  name : ∀ e ∈ t.entries, e.1 ∉ operationNames
  increasing : t.entries.Pairwise (·.2.address < ·.2.address)
  address_le_line : ∀ e ∈ t.entries, e.2.address ≤ e.2.line
  words : ∀ ws, emit t source = .ok ws → ∀ e ∈ t.entries, Emitted t source ws e

variable {source : List String} {t : SymbolTable}

/-! ### Lines -/

theorem labelOf?_eq (raw : String) : labelOf? raw = (Line.parse? raw).bind Line.label := by
  unfold labelOf? Line.parse?
  cases tokens raw with
  | nil => rfl
  | cons head rest =>
    cases h : isOperation head with
    | true => simp [Line.ofTokens?, h, (isOperation_iff head).mp h]
    | false =>
      have hname : head ∉ operationNames := by
        rw [← isOperation_iff, h]
        exact Bool.false_ne_true
      simp [Line.ofTokens?, h, hname]

theorem isSome_parse? (raw : String) : (Line.parse? raw).isSome = hasText raw := by
  have hnil := tokens_eq_nil_iff raw
  rw [Bool.eq_iff_iff, hasText, List.any_eq_true, Line.parse?]
  cases h : tokens raw with
  | nil => simpa [Line.ofTokens?] using hnil.mp h
  | cons head rest =>
    have hne : tokens raw ≠ [] := by simp [h]
    rw [Ne, hnil] at hne
    have hsome : (Line.ofTokens? (head :: rest)).isSome = true := by
      cases hop : isOperation head <;> simp [Line.ofTokens?, hop]
    simpa [hsome] using hne

theorem addressOf_eq (source : List String) (i : Nat) :
    addressOf source i = textBefore source i := by
  rw [addressOf, addressed, List.length_filterMap_eq_countP, textBefore]
  simp only [isSome_parse?]

theorem addressOf_le (source : List String) (i : Nat) : addressOf source i ≤ i := by
  rw [addressOf_eq, textBefore]
  exact Nat.le_trans List.countP_le_length (List.length_take_le i source)

theorem addressOf_succ {i : Nat} {l : Line} (h : LineAt source i l) :
    addressOf source (i + 1) = addressOf source i + 1 := by
  obtain ⟨raw, hraw, hl⟩ := h
  rw [addressOf, List.take_add_one, hraw, addressed_append, List.length_append, addressOf]
  simp [addressed, hl]

/-! ### Entries -/

/-- The entry for the label of a placed line. -/
def Placed.entry? (p : Placed) : Option (String × Definition) :=
  p.content.label.map fun l => (l, ⟨p.line, p.address⟩)

theorem entry?_eq_some_iff (p : Placed) (e : String × Definition) :
    p.entry? = some e ↔ p.content.label = some e.1 ∧ e.2 = ⟨p.line, p.address⟩ := by
  obtain ⟨l, d⟩ := e
  rw [Placed.entry?, Option.map_eq_some_iff]
  constructor
  · rintro ⟨k, hk, he⟩
    cases he
    exact ⟨hk, rfl⟩
  · rintro ⟨hl, rfl⟩
    exact ⟨l, hl, rfl⟩

/-- Definitions are entered behind those that are there. -/
theorem entries_of_foldlM_define {ps : List Placed} {t t' : SymbolTable}
    (h : ps.foldlM define t = .ok t') : t'.entries = t.entries ++ ps.filterMap Placed.entry? := by
  induction ps generalizing t with
  | nil =>
    cases h
    exact (List.append_nil _).symm
  | cons p ps ih =>
    rw [List.foldlM_cons] at h
    obtain ⟨t₁, h₁, h⟩ := (bind_eq_ok_iff _ _ _).mp h
    rw [ih h, List.filterMap_cons]
    rcases (define_eq_ok_iff t t₁ p).mp h₁ with ⟨hp, rfl⟩ | ⟨l, hp, hl, rfl⟩
    · simp [Placed.entry?, hp]
    · rw [entries_insert hl]
      simp [Placed.entry?, hp]

theorem labelled_concat (source : List String) (raw : String) :
    labelled (source ++ [raw]) = labelled source ++ ((labelOf? raw).map fun l =>
      (l, ⟨source.length, textBefore source source.length⟩)).toList := by
  have hbefore : ∀ i ≤ source.length, textBefore (source ++ [raw]) i = textBefore source i := by
    intro i hi
    rw [textBefore, List.take_append_of_le_length hi, textBefore]
  rw [labelled, List.zipIdx_append, List.filterMap_append, labelled]
  congr 1
  · apply List.filterMap_congr
    intro x hx
    have hlt := List.snd_lt_of_mem_zipIdx hx
    simp only [hbefore x.2 (by omega)]
  · simp only [List.zipIdx_singleton, Nat.zero_add, List.filterMap_cons, List.filterMap_nil,
      hbefore _ (Nat.le_refl _)]
    cases labelOf? raw <;> rfl

/-- The entries of the placed lines are those of the lines that begin with a label. -/
theorem filterMap_place (source : List String) :
    (place source).filterMap Placed.entry? = labelled source := by
  induction source using List.reverseRecOn with
  | nil => rfl
  | append_singleton source raw ih =>
    have haddress : (addressed source).length = textBefore source source.length := by
      rw [← addressOf_eq, addressOf, List.take_length]
    rw [place_concat, List.filterMap_append, ih, labelled_concat, labelOf?_eq, haddress]
    cases Line.parse? raw with
    | none => rfl
    | some l => cases hl : l.label <;> simp [Placed.entry?, hl]

theorem entries_of_collect (h : collect source = .ok t) : t.entries = labelled source := by
  rw [entries_of_foldlM_define h, filterMap_place]
  rfl

/-- There is a table when the lines that begin with a label begin with different ones. -/
theorem exists_collect_iff_nodup (source : List String) :
    (∃ t, collect source = .ok t) ↔ ((labelled source).map Prod.fst).Nodup := by
  constructor
  · rintro ⟨t, h⟩
    rw [← entries_of_collect h]
    exact t.nodup
  · intro h
    have hlabel : (fun p : Placed => p.entry?.map Prod.fst) = fun p => p.content.label := by
      funext p
      simp [Placed.entry?, Function.comp_def]
    rw [← filterMap_place, List.map_filterMap, hlabel, List.Nodup, List.pairwise_filterMap] at h
    refine (exists_foldlM_define_iff _ _).mpr ⟨fun _ _ l _ => SymbolTable.find?_empty l, ?_⟩
    exact h.imp fun hne l hl hl' => hne l hl l hl' rfl

theorem mem_entries_iff (h : collect source = .ok t) (e : String × Definition) :
    e ∈ t.entries ↔ ∃ p ∈ place source, p.content.label = some e.1 ∧ e.2 = ⟨p.line, p.address⟩ := by
  rw [entries_of_collect h, ← filterMap_place, List.mem_filterMap]
  simp only [entry?_eq_some_iff]

/-- The line of an entry begins with its label. -/
theorem labelOf?_of_mem_entries (h : collect source = .ok t) {e : String × Definition}
    (he : e ∈ t.entries) : ∃ raw, source[e.2.line]? = some raw ∧ labelOf? raw = some e.1 := by
  obtain ⟨p, hp, hl, hd⟩ := (mem_entries_iff h e).mp he
  obtain ⟨⟨raw, hraw, hline⟩, -⟩ := (mem_place_iff source p).mp hp
  rw [hd]
  exact ⟨raw, hraw, by rw [labelOf?_eq, hline, Option.bind_some, hl]⟩

theorem pairwise_address (source : List String) :
    (place source).Pairwise (·.address < ·.address) := by
  rw [List.pairwise_iff_getElem]
  intro a b ha hb hab
  rwa [address_of_getElem?_place (List.getElem?_eq_getElem ha),
    address_of_getElem?_place (List.getElem?_eq_getElem hb)]

/-! ### Words -/

/-- What the second pass emits for the first lines of a text are its first words. -/
theorem emit_take {ws : List Word} (h : emit t source = .ok ws) (i : Nat) :
    emit t (source.take i) = .ok (ws.take (addressOf source i)) := by
  have hplace := place_append (source.take i) (source.drop i)
  rw [List.take_append_drop] at hplace
  have hlength : (place (source.take i)).length = addressOf source i := by
    rw [addressOf, ← map_content_place, List.length_map]
  rw [emit_eq_ok_iff, hplace, List.map_append] at h
  rw [emit_eq_ok_iff, List.map_take, ← h, List.take_left' (by rw [List.length_map, hlength])]

theorem emitted_of_mem_entries (h : collect source = .ok t) {ws : List Word}
    (hws : emit t source = .ok ws) {e : String × Definition} (he : e ∈ t.entries) :
    Emitted t source ws e := by
  obtain ⟨p, hp, hl, hd⟩ := (mem_entries_iff h e).mp he
  obtain ⟨hline, haddress⟩ := (mem_place_iff source p).mp hp
  obtain ⟨a, ha⟩ := List.mem_iff_getElem?.mp hp
  have hpa := address_of_getElem?_place ha
  subst hpa
  have hword := congrArg (·[p.address]?) ((emit_eq_ok_iff t source ws).mp hws)
  simp only [List.getElem?_map, ha, Option.map_some] at hword
  obtain ⟨w, hw, hpw⟩ := Option.map_eq_some_iff.mp hword.symm
  have hbefore := emit_take hws p.line
  have hthrough := emit_take hws (p.line + 1)
  rw [addressOf_succ hline] at hthrough
  rw [← haddress] at hbefore hthrough
  constructor
  all_goals rw [hd]
  · exact (List.getElem?_eq_some_iff.mp hw).1
  · exact hbefore
  · exact hthrough
  · exact ⟨p.content, w, hline, hl, hpw.symm, hw⟩

/-! ### The table -/

theorem of_collect (h : collect source = .ok t) : t.Of source := by
  constructor
  case entries => exact entries_of_collect h
  case token =>
    intro e he
    obtain ⟨raw, -, hl⟩ := labelOf?_of_mem_entries h he
    exact isToken_of_mem_tokens (List.mem_of_head? (Option.filter_eq_some_iff.mp hl).1)
  case name =>
    intro e he
    obtain ⟨raw, -, hl⟩ := labelOf?_of_mem_entries h he
    simpa using (Option.filter_eq_some_iff.mp hl).2
  case increasing =>
    rw [entries_of_collect h, ← filterMap_place, List.pairwise_filterMap]
    refine (pairwise_address source).imp ?_
    intro p q hpq x hx y hy
    rw [((entry?_eq_some_iff p x).mp hx).2, ((entry?_eq_some_iff q y).mp hy).2]
    exact hpq
  case address_le_line =>
    intro e he
    obtain ⟨p, hp, -, hd⟩ := (mem_entries_iff h e).mp he
    rw [hd, ((mem_place_iff source p).mp hp).2]
    exact addressOf_le source p.line
  case words => exact fun ws hws e he => emitted_of_mem_entries h hws he

/-- A text has a table when no two of its lines begin with one label, and the table is then the one
that its lines tell. -/
theorem table_exact (source : List String) :
    ((∃ t, collect source = .ok t) ↔ ((labelled source).map Prod.fst).Nodup) ∧
    ∀ t, collect source = .ok t → t.Of source :=
  ⟨exists_collect_iff_nodup source, fun _ => of_collect⟩

/-- A program with blank lines between its lines and a label at its end. -/
def spaced : List String := ["", "start lw 0 1 data", " \t", "halt", "data .fill 7"]

theorem table_exact_spaced :
    ∃ t, collect spaced = .ok t ∧ t.Of spaced ∧
      t.entries = [("start", ⟨1, 0⟩), ("data", ⟨4, 2⟩)] := by
  have hnodup : ((labelled spaced).map Prod.fst).Nodup := by decide +kernel
  obtain ⟨t, ht⟩ := (table_exact spaced).1.mpr hnodup
  have hof := (table_exact spaced).2 t ht
  refine ⟨t, ht, hof, ?_⟩
  rw [hof.entries]
  decide +kernel

end SC32.Assembly
