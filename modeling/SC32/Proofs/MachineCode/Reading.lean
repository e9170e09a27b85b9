import SC32.Proofs.MachineCode.RoundTrip

/-!
# Any text read as machine code

What each line of a text contributes: nothing, a word, or a fault with the number of the line and
the first character that does not fit. Main statements: words and faults are what the lines
contribute, in their order; they can be read piece by piece, if each piece ends with a line; and
loading keeps the faults and adds at most one warning.
-/
namespace SC32

open Text

namespace MachineCode

/-- The same fault, `d` lines later. -/
def Malformed.later (d : Nat) (e : Malformed) : Malformed := { e with line := e.line + d }

/-- The lines, the first of them with the number `i`, hold these words and these faults. -/
inductive Holds : (i : Nat) → List String → List Word → List Malformed → Prop where
  | none (i : Nat) : Holds i [] [] []
  | blank {i : Nat} {l : String} {ls : List String} {ws : List Word} {fs : List Malformed}
    (hl : Trimmed l.toList []) (h : Holds (i + 1) ls ws fs) : Holds i (l :: ls) ws fs
  | word {i : Nat} {l : String} {ls : List String} {ws : List Word} {fs : List Malformed}
    {cs : List Char} {n : Int} (hl : Trimmed l.toList cs) (hcs : Decimal.Spells cs n)
    (hlo : -2147483648 ≤ n) (hhi : n ≤ 2147483647) (h : Holds (i + 1) ls ws fs) :
    Holds i (l :: ls) (BitVec.ofInt 32 n :: ws) fs
  | fault {i : Nat} {l : String} {ls : List String} {ws : List Word} {fs : List Malformed}
    {cs : List Char} {cause : Decimal.Fault} (hl : Trimmed l.toList cs) (hne : cs ≠ [])
    (hcs : Decimal.Misspelt cs cause) (h : Holds (i + 1) ls ws fs) :
    Holds i (l :: ls) ws (⟨i, String.ofList cs, cause⟩ :: fs)

namespace Holds

variable {i : Nat} {ls ks : List String} {ws vs : List Word} {fs gs : List Malformed}

theorem append (h : Holds i ls ws fs) (hk : Holds (i + ls.length) ks vs gs) :
    Holds i (ls ++ ks) (ws ++ vs) (fs ++ gs) := by
  induction h with
  | none i => exact hk
  | @blank i l ls ws fs hl _ ih =>
    rw [List.length_cons, ← Nat.add_assoc, Nat.add_right_comm] at hk
    exact .blank hl (ih hk)
  | @word i l ls ws fs cs n hl hcs hlo hhi _ ih =>
    rw [List.length_cons, ← Nat.add_assoc, Nat.add_right_comm] at hk
    exact .word hl hcs hlo hhi (ih hk)
  | @fault i l ls ws fs cs cause hl hne hcs _ ih =>
    rw [List.length_cons, ← Nat.add_assoc, Nat.add_right_comm] at hk
    exact .fault hl hne hcs (ih hk)

/-- Further down in a text only the numbers of the lines are others. -/
theorem later (h : Holds i ls ws fs) (d : Nat) :
    Holds (i + d) ls ws (fs.map (Malformed.later d)) := by
  induction h with
  | none i => exact .none (i + d)
  | blank hl _ ih =>
    rw [Nat.add_right_comm] at ih
    exact .blank hl ih
  | word hl hcs hlo hhi _ ih =>
    rw [Nat.add_right_comm] at ih
    exact .word hl hcs hlo hhi ih
  | fault hl hne hcs _ ih =>
    rw [Nat.add_right_comm] at ih
    exact .fault hl hne hcs ih

end Holds

/-! ### One line -/

theorem trim_of_trimmed {l : String} {cs : List Char} (h : Trimmed l.toList cs) :
    trim l = String.ofList cs := by
  rw [trim, (strip_eq_iff _ _).mpr h]

theorem ofList_ne_empty {cs : List Char} (h : cs ≠ []) : String.ofList cs ≠ "" := by
  intro he
  have hnil := congrArg String.toList he
  rw [String.toList_ofList] at hnil
  exact h hnil

theorem readLine_of_blank {l : String} (hl : Trimmed l.toList []) : readLine l = .ok none := by
  rw [readLine, if_pos (trim_of_trimmed hl)]

theorem readLine_of_spells {l : String} {cs : List Char} {n : Int} (hl : Trimmed l.toList cs)
    (hcs : Decimal.Spells cs n) (hlo : -2147483648 ≤ n) (hhi : n ≤ 2147483647) :
    readLine l = .ok (some (BitVec.ofInt 32 n)) := by
  have hread : Decimal.signed32 (String.ofList cs) = .ok n := by
    rw [Decimal.signed32_eq_ok_iff, String.toList_ofList]
    exact ⟨hcs, hlo, hhi⟩
  rw [readLine, trim_of_trimmed hl, if_neg (ofList_ne_empty hcs.ne_nil), hread]
  rfl

theorem readLine_of_misspelt {l : String} {cs : List Char} {cause : Decimal.Fault}
    (hl : Trimmed l.toList cs) (hne : cs ≠ []) (hcs : Decimal.Misspelt cs cause) :
    readLine l = .error cause := by
  have hread : Decimal.signed32 (String.ofList cs) = .error cause := by
    rw [Decimal.signed32_eq_error_iff, String.toList_ofList]
    exact hcs
  rw [readLine, trim_of_trimmed hl, if_neg (ofList_ne_empty hne), hread]
  rfl

/-! ### All lines -/

/-- What the lines hold, the first of them with the number `i`. -/
def readingsFrom (i : Nat) (ls : List String) : List (Except Malformed (Option Word)) :=
  (ls.zipIdx i).map fun (l, n) => (readLine l).mapError fun cause => ⟨n, trim l, cause⟩

theorem readingsFrom_cons (i : Nat) (l : String) (ls : List String) :
    readingsFrom i (l :: ls) =
      ((readLine l).mapError fun cause => ⟨i, trim l, cause⟩) :: readingsFrom (i + 1) ls := by
  rw [readingsFrom, List.zipIdx_cons, List.map_cons, readingsFrom]

def wordsFrom (i : Nat) (ls : List String) : List Word :=
  (readingsFrom i ls).filterMap fun
    | .ok w => w
    | .error _ => none

def faultsFrom (i : Nat) (ls : List String) : List Malformed :=
  (readingsFrom i ls).filterMap fun
    | .ok _ => none
    | .error e => some e

theorem holds_of_lines (ls : List String) (i : Nat) :
    Holds i ls (wordsFrom i ls) (faultsFrom i ls) := by
  induction ls generalizing i with
  | nil => exact .none i
  | cons l ls ih =>
    have hrest := ih (i + 1)
    have htrimmed := trimmed_strip l.toList
    unfold wordsFrom faultsFrom
    rw [readingsFrom_cons]
    by_cases hblank : strip l.toList = []
    · rw [hblank] at htrimmed
      rw [readLine_of_blank htrimmed]
      exact .blank htrimmed hrest
    · cases hread : Decimal.signed32 (trim l) with
      | ok n =>
        obtain ⟨hcs, hlo, hhi⟩ := (Decimal.signed32_eq_ok_iff _ _).mp hread
        rw [trim, String.toList_ofList] at hcs
        rw [readLine_of_spells htrimmed hcs hlo hhi]
        exact .word htrimmed hcs hlo hhi hrest
      | error cause =>
        have hcs := (Decimal.signed32_eq_error_iff _ _).mp hread
        rw [trim, String.toList_ofList] at hcs
        rw [readLine_of_misspelt htrimmed hblank hcs]
        exact .fault htrimmed hblank hcs hrest

theorem Holds.eq_lines {i : Nat} {ls : List String} {ws : List Word} {fs : List Malformed}
    (h : Holds i ls ws fs) : wordsFrom i ls = ws ∧ faultsFrom i ls = fs := by
  induction h with
  | none i => exact ⟨rfl, rfl⟩
  | blank hl _ ih =>
    unfold wordsFrom faultsFrom at ih ⊢
    rw [readingsFrom_cons, readLine_of_blank hl]
    exact ih
  | word hl hcs hlo hhi _ ih =>
    unfold wordsFrom faultsFrom at ih ⊢
    rw [readingsFrom_cons, readLine_of_spells hl hcs hlo hhi]
    exact ⟨congrArg _ ih.1, ih.2⟩
  | fault hl hne hcs _ ih =>
    unfold wordsFrom faultsFrom at ih ⊢
    rw [readingsFrom_cons, readLine_of_misspelt hl hne hcs, trim_of_trimmed hl]
    exact ⟨ih.1, congrArg _ ih.2⟩

/-- What a text holds is what its lines hold. -/
theorem holds_iff (text : String) (ws : List Word) (fs : List Malformed) :
    Holds 0 (lines text) ws fs ↔ words text = ws ∧ faults text = fs := by
  constructor
  · intro h
    exact h.eq_lines
  · rintro ⟨rfl, rfl⟩
    exact holds_of_lines (lines text) 0

/-- Every line is blank or adds one to the words or to the faults. -/
theorem Holds.length {i : Nat} {ls : List String} {ws : List Word} {fs : List Malformed}
    (h : Holds i ls ws fs) :
    ws.length + fs.length + ls.countP (trim · = "") = ls.length := by
  induction h with
  | none i => rfl
  | blank hl _ ih =>
    have hblank : trim _ = "" := trim_of_trimmed hl
    rw [List.countP_cons_of_pos (by simpa using hblank), List.length_cons]
    omega
  | word hl hcs _ _ _ ih =>
    have hne := trim_of_trimmed hl ▸ ofList_ne_empty hcs.ne_nil
    rw [List.countP_cons_of_neg (by simpa using hne), List.length_cons, List.length_cons]
    omega
  | fault hl hne _ _ ih =>
    have hne := trim_of_trimmed hl ▸ ofList_ne_empty hne
    rw [List.countP_cons_of_neg (by simpa using hne), List.length_cons, List.length_cons]
    omega

/-- Behind the end of a line a text can be cut in two. -/
theorem read_append (s t : String) :
    words (s ++ "\n" ++ t) = words (s ++ "\n") ++ words t ∧
    faults (s ++ "\n" ++ t) =
      faults (s ++ "\n") ++ (faults t).map (Malformed.later (lines (s ++ "\n")).length) := by
  have hs := (holds_iff (s ++ "\n") _ _).mpr ⟨rfl, rfl⟩
  have ht := ((holds_iff t _ _).mpr ⟨rfl, rfl⟩).later (lines (s ++ "\n")).length
  have hboth := hs.append ht
  rw [← lines_append] at hboth
  exact (holds_iff _ _ _).mp hboth

/-- For any text: its lines are cut in one way, and each of them is blank, or a numeral that 32 bits
hold, or goes wrong in one place; the words and the faults are what the lines hold, one after the
other. What follows a text that ends with a line is read by itself. Into any machine the words are
loaded as far as there are cells, and what is left over is counted behind the faults. -/
theorem reading_exact (text : String) :
    (∀ ls, lines text = ls ↔ Lined text.toList (ls.map String.toList)) ∧
    (∀ cs, (¬ ∃ n, Decimal.Spells cs n ∧ -2147483648 ≤ n ∧ n ≤ 2147483647) ↔
      ∃ f, ∀ g, Decimal.Misspelt cs g ↔ g = f) ∧
    (∀ ws fs, Holds 0 (lines text) ws fs ↔ words text = ws ∧ faults text = fs) ∧
    (words text).length + (faults text).length + (lines text).countP (trim · = "") =
      (lines text).length ∧
    (∀ more, text = "" ∨ (∃ s, text = s ++ "\n") →
      words (text ++ more) = words text ++ words more ∧
      faults (text ++ more) =
        faults text ++ (faults more).map (Malformed.later (lines text).length)) ∧
    ∀ m : Machine, m.Receives (words text) (m.loadText text) ∧
      m.loadWarnings text = (faults text).map .malformed ++
        if (words text).length ≤ m.capacity then []
        else [.overflow ((words text).length - m.capacity) m.capacity] := by
  refine ⟨lines_eq_iff text, Decimal.misspelt_iff, holds_iff text, ?_, ?_, ?_⟩
  · exact (holds_of_lines (lines text) 0).length
  · rintro more (rfl | ⟨s, rfl⟩)
    · have hlater : (faults more).map (Malformed.later 0) = faults more := List.map_id _
      rw [String.empty_append]
      exact ⟨rfl, hlater.symm⟩
    · exact read_append s more
  · exact fun m => ⟨m.receives_load (words text), m.loadWarnings_eq text⟩

/-- Three lines: a word in a margin, nothing but a space, and a sign without digits. -/
def ragged : String := "  +12\r\n\u2003\n-\n"

/-- Of two numerals that are too long, one has a letter before it gets too large. -/
theorem reading_exact_ragged :
    (ragged = "" ∨ ∃ s, ragged = s ++ "\n") ∧
    words (ragged ++ "4x99999999999\n99999999999x\n\t-2147483648") = [12, 0x80000000] ∧
    faults (ragged ++ "4x99999999999\n99999999999x\n\t-2147483648") =
      [⟨2, "-", .invalidDigit⟩, ⟨3, "4x99999999999", .invalidDigit⟩,
        ⟨4, "99999999999x", .tooLarge⟩] := by
  have hend : ragged = "" ∨ ∃ s, ragged = s ++ "\n" := .inr ⟨"  +12\r\n\u2003\n-", rfl⟩
  obtain ⟨-, -, -, -, happend, -⟩ := reading_exact ragged
  obtain ⟨hwords, hfaults⟩ := happend "4x99999999999\n99999999999x\n\t-2147483648" hend
  refine ⟨hend, ?_, ?_⟩
  · rw [hwords]
    decide +kernel
  · rw [hfaults]
    decide +kernel

end MachineCode
end SC32
