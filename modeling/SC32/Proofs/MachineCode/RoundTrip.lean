import SC32.Machine.Loading
import SC32.Proofs.Text.Lines
import SC32.Proofs.Text.Numeral

/-!
# Machine code through text and into memory

What is written for a list of words is read as these words and without a complaint, so loading the
text puts each word into the cell of its number, as far as there are cells.
-/
namespace SC32

open Text

namespace MachineCode

/-- A numeral stands on one line and has no margin. -/
theorem not_isBlank_of_mem_of_spells {cs : List Char} {n : Int} (h : Decimal.Spells cs n) {c : Char}
    (hc : c ∈ cs) : isBlank c = false := by
  rcases h.sign_or_isDigit_of_mem hc with rfl | rfl | hd
  · rfl
  · rfl
  · exact not_isBlank_of_isDigit hd

theorem not_isBlank_of_mem_ofInt {n : Int} {c : Char} (h : c ∈ (Decimal.ofInt n).toList) :
    isBlank c = false := not_isBlank_of_mem_of_spells (Decimal.spells_ofInt n) h

theorem oneLine_ofInt (n : Int) : OneLine (Decimal.ofInt n) :=
  oneLine_of_forall_not_isBlank fun _ => not_isBlank_of_mem_ofInt

theorem lines_render (ws : List Word) :
    lines (render ws) = ws.map fun w => Decimal.ofInt w.toInt := by
  have hrender : render ws =
      String.join ((ws.map fun w => Decimal.ofInt w.toInt).map (· ++ "\n")) := by
    rw [render, List.map_map]
    rfl
  rw [hrender, lines_join (List.forall_mem_map.mpr fun w _ => oneLine_ofInt w.toInt)]

theorem readLine_ofInt (w : Word) : readLine (Decimal.ofInt w.toInt) = .ok (some w) := by
  have htrim : trim (Decimal.ofInt w.toInt) = Decimal.ofInt w.toInt :=
    trim_of_forall_not_isBlank fun _ hc => not_isBlank_of_mem_ofInt hc
  have hne : Decimal.ofInt w.toInt ≠ "" := by
    intro h
    have hnil := (Decimal.spells_ofInt w.toInt).ne_nil
    rw [h] at hnil
    exact hnil rfl
  have hlo : -2147483648 ≤ w.toInt := BitVec.le_toInt w
  have hhi : w.toInt < 2147483648 := BitVec.toInt_lt
  rw [readLine, htrim, if_neg hne, Decimal.signed32_ofInt hlo (by omega), Except.map,
    BitVec.ofInt_toInt]

/-- Reading number `n` is that of line number `n`. -/
theorem getElem?_readings (text : String) (n : Nat) :
    (readings text)[n]? =
      (lines text)[n]?.map fun l => (readLine l).mapError fun cause => ⟨n, trim l, cause⟩ := by
  simp [readings, List.getElem?_zipIdx, Function.comp_def]

theorem readings_render (ws : List Word) : readings (render ws) = ws.map fun w => .ok (some w) := by
  apply List.ext_getElem?
  intro n
  have hread : ((fun l => (readLine l).mapError fun cause => Malformed.mk n (trim l) cause) ∘
      fun w : Word => Decimal.ofInt w.toInt) = fun w => .ok (some w) := by
    funext w
    rw [Function.comp_apply, readLine_ofInt]
    rfl
  rw [getElem?_readings, lines_render, List.getElem?_map, List.getElem?_map, Option.map_map, hread]

theorem words_render (ws : List Word) : words (render ws) = ws := by
  rw [words, readings_render, List.filterMap_map]
  exact List.filterMap_some

theorem faults_render (ws : List Word) : faults (render ws) = [] := by
  rw [faults, readings_render, List.filterMap_map]
  exact List.filterMap_eq_nil_iff.mpr fun _ _ => rfl

end MachineCode

namespace Machine

/-- `n` is `m` with the words in its cells from address 0 on, as far as there are cells, and with
nothing else changed. -/
structure Receives (m : Machine) (ws : List Word) (n : Machine) : Prop where
  capacity : n.capacity = m.capacity
  cells : ∀ a < min ws.length m.capacity, n.cell? a = ws[a]?
  others : ∀ a, min ws.length m.capacity ≤ a → n.cell? a = m.cell? a
  loaded : n.loaded = min ws.length m.capacity
  registers : n.registers = m.registers
  pc : n.pc = m.pc
  executed : n.executed = m.executed
  exit : n.exit = m.exit

theorem cell?_load (m : Machine) (ws : List Word) (a : Nat) :
    (m.load ws).cell? a =
      if a < m.capacity then some (ws[a]?.getD (m.memory.read a)) else none := by
  have hcell : (m.load ws).cell? a =
      if a < (m.memory.load ws).size then some ((m.memory.load ws).read a) else none := rfl
  rw [hcell, Memory.size_load, Memory.read_load, capacity]
  split <;> rfl

theorem receives_load (m : Machine) (ws : List Word) : m.Receives ws (m.load ws) where
  capacity := capacity_load m ws
  cells a ha := by
    have hlt : a < ws.length := by omega
    rw [cell?_load, if_pos (by omega), List.getElem?_eq_getElem hlt]
    rfl
  others a ha := by
    rw [cell?_load, cell?, Memory.cell?]
    change _ = if a < m.capacity then _ else _
    split
    · rw [List.getElem?_eq_none (by omega)]
      rfl
    · rfl
  loaded := rfl
  registers := rfl
  pc := rfl
  executed := rfl
  exit := rfl

/-- The words for which there is no room are counted in one warning, behind all others. -/
theorem loadWarnings_eq (m : Machine) (text : String) :
    m.loadWarnings text = (MachineCode.faults text).map .malformed ++
      if (MachineCode.words text).length ≤ m.capacity then []
      else [.overflow ((MachineCode.words text).length - m.capacity) m.capacity] := by
  have hexcess : m.excess (MachineCode.words text) =
      (MachineCode.words text).length - m.capacity := rfl
  simp only [loadWarnings, hexcess, Nat.sub_eq_zero_iff_le]

theorem loadWarnings_render (m : Machine) (ws : List Word) :
    m.loadWarnings (MachineCode.render ws) =
      if ws.length ≤ m.capacity then [] else [.overflow (ws.length - m.capacity) m.capacity] := by
  rw [loadWarnings_eq, MachineCode.faults_render, MachineCode.words_render, List.map_nil,
    List.nil_append]

end Machine

/-- What is written for words is read as these words, and reading it into any machine puts them
into its first cells and changes nothing else but the number of loaded words. Words that were read
from any text are read again from what is written for them. -/
theorem MachineCode.persistent (ws : List Word) :
    words (render ws) = ws ∧ faults (render ws) = [] ∧
    (∀ m : Machine, m.Receives ws (m.loadText (render ws)) ∧
      m.loadWarnings (render ws) =
        if ws.length ≤ m.capacity then [] else [.overflow (ws.length - m.capacity) m.capacity]) ∧
    ∀ text, words (render (words text)) = words text ∧ faults (render (words text)) = [] := by
  refine ⟨words_render ws, faults_render ws, ?_, ?_⟩
  · intro m
    have hload : m.loadText (render ws) = m.load ws := congrArg m.load (words_render ws)
    rw [hload]
    exact ⟨m.receives_load ws, m.loadWarnings_render ws⟩
  · intro text
    exact ⟨words_render (words text), faults_render (words text)⟩

end SC32
