import SC32.Word
import Std.Data.ExtTreeMap

/-!
Memories of a fixed size. Cells that hold zero take no room, so a memory may be far larger than what
is ever put into it. Main statements: what a cell holds after a write and after a load, and that a
memory is known by its size and its cells.
-/
namespace SC32

structure Memory where
  size : Nat
  /-- The words that are not zero, by address. -/
  words : Std.ExtTreeMap Nat Word
  proper : ∀ (a : Nat) (w : Word), words[a]? = some w → a < size ∧ w ≠ 0
  deriving DecidableEq

namespace Memory

/-- All zeros. -/
def blank (size : Nat) : Memory := ⟨size, ∅, by simp⟩

def read (m : Memory) (a : Nat) : Word := m.words.getD a 0

/-- What the cell at `a` holds, if there is one. -/
def cell? (m : Memory) (a : Nat) : Option Word := if a < m.size then some (m.read a) else none

def write (m : Memory) (a : Fin m.size) (v : Word) : Memory where
  size := m.size
  words := if v = 0 then m.words.erase a else m.words.insert a v
  proper b w h := by
    have hb := m.proper b w
    have ha := a.isLt
    split at h <;> grind

/-- Put a word into the cell at `a`, if there is one. -/
def set (m : Memory) (a : Nat) (v : Word) : Memory :=
  if h : a < m.size then m.write ⟨a, h⟩ v else m

/-- Put words into the cells from `a` on, as far as there are cells. -/
def place : List Word → (a : Nat) → Memory → Memory
  | [], _, m => m
  | w :: ws, a, m => place ws (a + 1) (m.set a w)

/-- Put words into the cells from address 0 on, as far as there are cells. -/
def load (m : Memory) (ws : List Word) : Memory := place (ws.take m.size) 0 m

/-- The cells that two memories do not agree on, with what the second one holds, by address. -/
def changes (m n : Memory) : List (Nat × Word) :=
  let written := n.words.toList.filter fun (a, w) => m.read a ≠ w
  let cleared := m.words.keys.filter (! n.words.contains ·)
  written.merge (cleared.map (·, 0)) fun x y => x.1 ≤ y.1

@[simp] theorem size_blank (c : Nat) : (blank c).size = c := rfl

@[simp] theorem read_blank (c a : Nat) : (blank c).read a = 0 := by simp [read, blank]

@[simp] theorem size_write (m : Memory) (a : Fin m.size) (v : Word) : (m.write a v).size = m.size :=
  rfl

theorem read_write (m : Memory) (a : Fin m.size) (v : Word) (b : Nat) :
    (m.write a v).read b = if b = a then v else m.read b := by
  unfold read write
  split <;> grind

@[simp] theorem size_set (m : Memory) (a : Nat) (v : Word) : (m.set a v).size = m.size := by
  unfold set
  split <;> rfl

theorem read_set (m : Memory) (a : Nat) (v : Word) (b : Nat) :
    (m.set a v).read b = if b = a ∧ b < m.size then v else m.read b := by
  unfold set
  split
  · rw [read_write]
    grind
  · grind

/-- A word that is put somewhere changes one cell at most. -/
theorem cell?_set (m : Memory) (a : Nat) (v : Word) (b : Nat) :
    (m.set a v).cell? b = if b = a ∧ b < m.size then some v else m.cell? b := by
  rw [cell?, cell?, size_set, read_set]
  grind

@[simp] theorem size_place (ws : List Word) (a : Nat) (m : Memory) :
    (place ws a m).size = m.size := by
  induction ws generalizing a m with
  | nil => rfl
  | cons w ws ih => rw [place, ih, size_set]

theorem read_place (ws : List Word) (a : Nat) (m : Memory) (b : Nat) :
    (place ws a m).read b =
      if a ≤ b ∧ b < m.size then ws[b - a]?.getD (m.read b) else m.read b := by
  induction ws generalizing a m with
  | nil => simp [place]
  | cons w ws ih =>
    rw [place, ih, size_set, read_set]
    rcases Nat.lt_trichotomy a b with h | rfl | h
    · have hb : b - a = (b - (a + 1)) + 1 := by omega
      simp [hb, Nat.le_of_lt h, Nat.ne_of_gt h, Nat.succ_le_of_lt h]
    · rw [if_neg (by omega)]
      simp
    · simp [Nat.not_le_of_lt h, Nat.ne_of_lt h, Nat.not_le_of_lt (Nat.lt_succ_of_lt h)]

@[simp] theorem size_load (m : Memory) (ws : List Word) : (m.load ws).size = m.size :=
  size_place _ _ _

theorem read_load (m : Memory) (ws : List Word) (b : Nat) :
    (m.load ws).read b = if b < m.size then ws[b]?.getD (m.read b) else m.read b := by
  rw [load, read_place]
  grind

/-- A memory is known by its size and its cells. -/
theorem ext_cell {m n : Memory} (hs : m.size = n.size) (h : ∀ a, m.cell? a = n.cell? a) :
    m = n := by
  have hw : m.words = n.words := by
    refine Std.ExtTreeMap.ext_getElem? fun a => ?_
    have hm := m.proper a
    have hn := n.proper a
    have ha := h a
    unfold cell? read at ha
    simp only [Std.ExtTreeMap.getD_eq_getD_getElem?] at ha
    cases hx : m.words[a]? <;> cases hy : n.words[a]? <;> grind
  cases m
  cases n
  simp_all

end Memory
end SC32
