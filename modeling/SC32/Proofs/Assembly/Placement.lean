import Mathlib.Data.List.Induction
import SC32.Proofs.Assembly.Passes

/-!
# Where lines stand

A line that is not blank stands in the source under its number, and in memory under the number of
such lines before it. Lines that are put behind others keep their order and move by what is in front
of them, and a statement that moves together with the labels it branches to keeps its word. Main
statements: the places of a source, of one source behind another, and the word of a moved statement.
-/
namespace SC32.Assembly

/-- Line number `i` is not blank and reads as `l`. -/
def LineAt (source : List String) (i : Nat) (l : Line) : Prop :=
  ∃ raw, source[i]? = some raw ∧ Line.parse? raw = some l

/-- How many lines before line number `i` are not blank. -/
def addressOf (source : List String) (i : Nat) : Nat := (addressed (source.take i)).length

/-- The word of a line at address `a`, or what is wrong with the line. -/
def Line.word (t : SymbolTable) (a : Nat) (l : Line) : Except Fault Word :=
  l.statement >>= Statement.word t a

/-- The same line behind that many lines, of which so many have an address. -/
def Placed.move (lines addresses : Nat) (p : Placed) : Placed :=
  ⟨p.line + lines, p.address + addresses, p.content⟩

theorem LineAt.lt_length {source : List String} {i : Nat} {l : Line} (h : LineAt source i l) :
    i < source.length := by
  obtain ⟨raw, hraw, -⟩ := h
  exact (List.getElem?_eq_some_iff.mp hraw).1

/-! ### One source behind another -/

theorem addressed_append (p q : List String) : addressed (p ++ q) = addressed p ++ addressed q :=
  List.filterMap_append

theorem numbered_append (p q : List String) :
    numbered (p ++ q) = numbered p ++ (numbered q).map fun x => (x.1 + p.length, x.2) := by
  have hq := List.zipIdx_eq_map_add (l := q) (i := p.length)
  rw [numbered, List.zipIdx_append, List.filterMap_append, Nat.zero_add, hq, List.filterMap_map,
    numbered, numbered, List.map_filterMap]
  congr 2
  funext x
  simp [Function.comp_def, Nat.add_comm]

theorem length_numbered (source : List String) :
    (numbered source).length = (addressed source).length := by
  rw [← map_snd_numbered, List.length_map]

theorem place_append (p q : List String) :
    place (p ++ q) = place p ++ (place q).map (Placed.move p.length (addressed p).length) := by
  have hq := List.zipIdx_eq_map_add (l := numbered q) (i := (addressed p).length)
  rw [place, numbered_append, List.zipIdx_append, List.map_append, Nat.zero_add, length_numbered,
    List.zipIdx_map, hq, place, place, List.map_map, List.map_map, List.map_map]
  congr 2
  funext x
  simp [Placed.move, Nat.add_comm]

/-- A line at the end is placed last, unless it is blank. -/
theorem place_concat (source : List String) (raw : String) :
    place (source ++ [raw]) =
      place source ++
        ((Line.parse? raw).map fun l => ⟨source.length, (addressed source).length, l⟩).toList := by
  rw [place_append]
  cases h : Line.parse? raw <;> simp [place, numbered, h, Placed.move]

/-! ### The places of a source -/

theorem lineAt_concat_iff (source : List String) (raw : String) (i : Nat) (l : Line) :
    LineAt (source ++ [raw]) i l ↔
      LineAt source i l ∨ i = source.length ∧ Line.parse? raw = some l := by
  rcases Nat.lt_trichotomy i source.length with h | rfl | h
  · simp [LineAt, List.getElem?_append_left h, Nat.ne_of_lt h]
  · simp [LineAt]
  · have hnone : (source ++ [raw])[i]? = none := by
      apply List.getElem?_eq_none
      rw [List.length_append, List.length_singleton]
      exact h
    simp [LineAt, Nat.ne_of_gt h, hnone, List.getElem?_eq_none (Nat.le_of_lt h)]

theorem addressOf_concat (source : List String) (raw : String) {i : Nat} (h : i ≤ source.length) :
    addressOf (source ++ [raw]) i = addressOf source i := by
  rw [addressOf, List.take_append_of_le_length h, addressOf]

/-- Every line that is not blank is placed, at the address that counts such lines before it. -/
theorem mem_place_iff (source : List String) (p : Placed) :
    p ∈ place source ↔ LineAt source p.line p.content ∧ p.address = addressOf source p.line := by
  induction source using List.reverseRecOn with
  | nil => simp [place, numbered, LineAt]
  | append_singleton source raw ih =>
    rw [place_concat, List.mem_append, ih, lineAt_concat_iff, Option.mem_toList,
      Option.map_eq_some_iff]
    constructor
    · rintro (⟨hl, ha⟩ | ⟨l, hl, rfl⟩)
      · exact ⟨.inl hl, ha.trans (addressOf_concat source raw (Nat.le_of_lt hl.lt_length)).symm⟩
      · refine ⟨.inr ⟨rfl, hl⟩, ?_⟩
        rw [addressOf_concat source raw (Nat.le_refl _), addressOf, List.take_length]
    · rintro ⟨hl | ⟨hn, hl⟩, ha⟩
      · rw [addressOf_concat source raw (Nat.le_of_lt hl.lt_length)] at ha
        exact .inl ⟨hl, ha⟩
      · refine .inr ⟨p.content, hl, ?_⟩
        rw [hn, addressOf_concat source raw (Nat.le_refl _), addressOf, List.take_length] at ha
        cases p
        simp_all

theorem LineAt.getElem?_addressed {source : List String} {i : Nat} {l : Line}
    (h : LineAt source i l) : (addressed source)[addressOf source i]? = some l := by
  have hp := (mem_place_iff source ⟨i, addressOf source i, l⟩).mpr ⟨h, rfl⟩
  obtain ⟨a, ha⟩ := List.mem_iff_getElem?.mp hp
  have haddress : addressOf source i = a := address_of_getElem?_place ha
  rw [haddress]
  exact content_of_getElem?_place ha

/-- Lines are placed in the order of the source. -/
theorem pairwise_place (source : List String) : (place source).Pairwise (·.line < ·.line) := by
  induction source using List.reverseRecOn with
  | nil => exact List.Pairwise.nil
  | append_singleton source raw ih =>
    rw [place_concat, List.pairwise_append]
    refine ⟨ih, ?_, ?_⟩
    · cases Line.parse? raw <;> simp
    · intro p hp q hq
      obtain ⟨l, -, rfl⟩ := Option.map_eq_some_iff.mp (Option.mem_toList.mp hq)
      exact ((mem_place_iff source p).mp hp).1.lt_length

/-- What is placed before a line is what stands before it in the source. -/
theorem mem_before_iff {source : List String} {before behind : List Placed} {p : Placed}
    (h : place source = before ++ p :: behind) (q : Placed) :
    q ∈ before ↔ q ∈ place source ∧ q.line < p.line := by
  have hsorted := pairwise_place source
  rw [h, List.pairwise_append, List.pairwise_cons] at hsorted
  obtain ⟨-, ⟨hbehind, -⟩, hbefore⟩ := hsorted
  rw [h, List.mem_append, List.mem_cons]
  constructor
  · intro hq
    exact ⟨.inl hq, hbefore q hq p List.mem_cons_self⟩
  · rintro ⟨hq | rfl | hq, hlt⟩
    · exact hq
    · exact absurd hlt (Nat.lt_irrefl _)
    · exact absurd hlt (Nat.lt_asymm (hbehind q hq))

/-- The second pass line by line, whatever it would report. -/
theorem emit_eq_ok_iff (t : SymbolTable) (source : List String) (ws : List Word) :
    emit t source = .ok ws ↔
      (place source).map (fun x => x.content.word t x.address) = ws.map .ok := by
  rw [emit, mapM_eq_ok_iff]
  refine map_eq_map_ok_congr _ _ _ ?_ ws
  intro x _ w
  rw [Placed.word, mapError_eq_ok_iff, Line.word]

/-! ### Statements elsewhere -/

/-- Seen from lines that come to stand `n` addresses further down, together with their labels. -/
def Target.move (n : Nat) : Target → Target
  | .label a => .label (a + n)
  | .literal v => .literal v

/-- The operand whose value goes into the word as it is. -/
def Statement.absolute? : Statement → Option Operand
  | .fill x | .code (.lw _ _ x) | .code (.sw _ _ x) => some x
  | .code _ => none

/-- The operand of which only the distance goes into the word. -/
def Statement.relative? : Statement → Option Operand
  | .code (.beq _ _ x) => some x
  | .code _ | .fill _ => none

theorem immediate?_eq_or (s : Statement) : s.immediate? = s.absolute?.or s.relative? := by
  cases s with
  | fill x => rfl
  | code i => cases i <;> rfl

theorem absolute?_of_relative? {s : Statement} {x : Operand} (h : s.relative? = some x) :
    s.absolute? = none := by
  cases s with
  | fill => cases h
  | code i =>
    cases i with
    | beq => rfl
    | add | nand | lw | sw | jalr | halt | noop => cases h

/-- A distance does not change when both its ends move. -/
theorem relative_move (n a : Nat) (v : Target) : (v.move n).relative (a + n) = v.relative a := by
  cases v with
  | literal => rfl
  | label b =>
    simp only [Target.move, Target.relative]
    omega

variable {t t' : SymbolTable}

/-- A statement has the same word `n` addresses further down under a table that moves the label it
branches to and keeps the one that it takes as it is. -/
theorem word_move {s : Statement} (n a : Nat)
    (habs : ∀ x, s.absolute? = some x → t'.target x = t.target x)
    (hrel : ∀ x, s.relative? = some x → t'.target x = (t.target x).map (Target.move n)) :
    s.word t' (a + n) = s.word t a := by
  cases s with
  | fill x => rw [Statement.word, habs x rfl, Statement.word]
  | code i =>
    have hresolve : resolve t' (a + n) i = resolve t a i := by
      cases i with
      | add | nand | jalr | halt | noop => rfl
      | lw _ _ x | sw _ _ x => rw [resolve, habs x rfl, resolve]
      | beq _ _ x =>
        rw [resolve, hrel x rfl, resolve]
        cases t.target x with
        | error e => rfl
        | ok v =>
          change (do return Instruction.beq _ _ (← offset ((v.move n).relative (a + n)))) = _
          rw [relative_move]
          rfl
    rw [Statement.word, hresolve, Statement.word]

/-- The table matters to a statement only through its operand. -/
theorem word_congr {s : Statement} (a : Nat)
    (h : ∀ x, s.immediate? = some x → t'.target x = t.target x) : s.word t' a = s.word t a := by
  have hstay : Target.move 0 = id := by
    funext v
    cases v <;> rfl
  rw [immediate?_eq_or] at h
  refine word_move 0 a (fun x hx => h x (by rw [hx]; rfl)) ?_
  intro x hx
  have hnone := absolute?_of_relative? hx
  rw [hstay, h x (by rw [hnone, hx]; rfl)]
  cases t.target x <;> rfl

theorem target_congr {x : Operand} (h : t'.address? x = t.address? x) :
    t'.target x = t.target x := by
  rw [SymbolTable.target, h, SymbolTable.target]

theorem target_move {n : Nat} {x : Operand} (h : t'.address? x = (t.address? x).map (· + n)) :
    t'.target x = (t.target x).map (Target.move n) := by
  rw [SymbolTable.target, h, SymbolTable.target]
  cases t.address? x with
  | some a => rfl
  | none => cases Text.Decimal.signed32 x <;> rfl

end SC32.Assembly
