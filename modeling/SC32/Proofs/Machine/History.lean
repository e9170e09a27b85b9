import Mathlib.Algebra.Group.Nat.Defs
import SC32.Proofs.Machine.Bookkeeping

/-!
# A machine with a history

Whatever is done to a blank machine, in whatever order and with whatever arguments, its record says
what has been done: the capacity is the one it was given, and the number of loaded words, the
counter and the exit are those of the last load, of the steps that fetched and of the last event
that ends a run. Main statements: one operation, then any number of them.
-/
namespace SC32

/-- What can be done to a machine. -/
inductive Operation where
  | load (words : List Word)
  | setRegister (r : Reg) (v : Word)
  /-- An address without a cell is left alone. -/
  | write (a : Nat) (v : Word)
  | setPc (v : Word)
  | step
  deriving DecidableEq

namespace Operation

def apply : Operation → Machine → Machine
  | load words, m => m.load words
  | setRegister r v, m => m.setRegister r v
  | write a v, m => (m.write? a v).getD m
  | setPc v, m => m.setPc v
  | step, m => m.step.2

/-- The event of a step. -/
def event? : Operation → Machine → Option Event
  | step, m => some m.step.1
  | _, _ => none

/-- The words of a load. -/
def words? : Operation → Option (List Word)
  | load words => some words
  | _ => none

/-- The words of the last load among the operations. -/
def lastLoad? (ops : List Operation) : Option (List Word) := (ops.filterMap words?).getLast?

end Operation

namespace Machine

/-- One operation after the other. -/
def applyAll (m : Machine) (ops : List Operation) : Machine := ops.foldl (fun m o => o.apply m) m

/-- The events of the steps among the operations. -/
def eventsOf : List Operation → Machine → List Event
  | [], _ => []
  | o :: ops, m => (o.event? m).toList ++ eventsOf ops (o.apply m)

theorem applyAll_cons (m : Machine) (o : Operation) (ops : List Operation) :
    m.applyAll (o :: ops) = (o.apply m).applyAll ops := rfl

/-- Writing a cell changes nothing but the memory, and not its size. -/
theorem write?_getD (m : Machine) (a : Nat) (v : Word) :
    (m.write? a v).getD m = { m with memory := m.memory.set a v } := by
  unfold write? Memory.set
  split <;> rfl

/-! ### One operation -/

theorem capacity_apply (o : Operation) (m : Machine) : (o.apply m).capacity = m.capacity := by
  cases o with
  | load words => exact m.capacity_load words
  | write a v =>
    rw [Operation.apply, write?_getD]
    exact m.memory.size_set a v
  | step => exact m.capacity_step
  | setRegister | setPc => rfl

/-- Only a load changes the number of loaded words. -/
theorem loaded_apply (o : Operation) (m : Machine) :
    (o.apply m).loaded =
      (o.words?.map fun words => min words.length m.capacity).getD m.loaded := by
  cases o with
  | write a v =>
    rw [Operation.apply, write?_getD]
    rfl
  | step => exact m.records_step.loaded
  | load | setRegister | setPc => rfl

/-- Only a step that fetches is counted. -/
theorem executed_apply (o : Operation) (m : Machine) :
    (o.apply m).executed = m.executed + (o.event? m).toList.countP Event.fetched := by
  cases o with
  | write a v =>
    rw [Operation.apply, write?_getD]
    rfl
  | step =>
    rw [Operation.apply, m.records_step.executed, Operation.event?, Option.toList_some,
      List.countP_singleton]
    cases m.step.1.fetched <;> rfl
  | load | setRegister | setPc => rfl

/-- Only a step says how a run ended. -/
theorem exit_apply (o : Operation) (m : Machine) :
    (o.apply m).exit = ((o.event? m).bind Event.exit?).or m.exit := by
  cases o with
  | write a v =>
    rw [Operation.apply, write?_getD]
    rfl
  | step => exact m.records_step.exit
  | load | setRegister | setPc => rfl

/-! ### Any number of operations -/

theorem capacity_applyAll (m : Machine) (ops : List Operation) :
    (m.applyAll ops).capacity = m.capacity := by
  induction ops generalizing m with
  | nil => rfl
  | cons o ops ih => rw [applyAll_cons, ih, capacity_apply]

theorem loaded_applyAll (m : Machine) (ops : List Operation) :
    (m.applyAll ops).loaded =
      ((Operation.lastLoad? ops).map fun words => min words.length m.capacity).getD m.loaded := by
  induction ops generalizing m with
  | nil => rfl
  | cons o ops ih =>
    rw [applyAll_cons, ih, capacity_apply, loaded_apply, Operation.lastLoad?, Operation.lastLoad?]
    cases hw : o.words? with
    | none =>
      rw [List.filterMap_cons_none hw]
      rfl
    | some words =>
      rw [List.filterMap_cons_some hw, List.getLast?_cons]
      cases (ops.filterMap Operation.words?).getLast? <;> rfl

theorem executed_applyAll (m : Machine) (ops : List Operation) :
    (m.applyAll ops).executed = m.executed + (eventsOf ops m).countP Event.fetched := by
  induction ops generalizing m with
  | nil => rfl
  | cons o ops ih =>
    rw [applyAll_cons, ih, executed_apply, eventsOf, List.countP_append, Nat.add_assoc]

theorem exit_applyAll (m : Machine) (ops : List Operation) :
    (m.applyAll ops).exit = ((eventsOf ops m).filterMap Event.exit?).getLast?.or m.exit := by
  induction ops generalizing m with
  | nil => rfl
  | cons o ops ih =>
    rw [applyAll_cons, ih, exit_apply, eventsOf, List.filterMap_append, List.getLast?_append,
      Option.or_assoc]
    congr 2
    cases h : o.event? m with
    | none => rfl
    | some e =>
      rw [Option.toList_some]
      cases he : e.exit? <;> simp [he]

/-- Once a run has ended, no operation takes that back. -/
theorem terminated_applyAll {m : Machine} (h : m.terminated = true) (ops : List Operation) :
    (m.applyAll ops).terminated = true := by
  rw [terminated, exit_applyAll, Option.isSome_or]
  exact Bool.or_eq_true_iff.mpr (.inr h)

/-- Every step has one event. -/
theorem length_eventsOf (ops : List Operation) (m : Machine) :
    (eventsOf ops m).length = ops.count .step := by
  induction ops generalizing m with
  | nil => rfl
  | cons o ops ih =>
    rw [eventsOf, List.length_append, ih, List.count_cons]
    cases o with
    | step => exact Nat.add_comm _ _
    | load | setRegister | write | setPc => exact Nat.zero_add _

/-- The record of a machine with room for `c` words, after operations with the events `es`. -/
structure Chronicle (c : Nat) (ops : List Operation) (es : List Event) (m : Machine) : Prop where
  capacity : m.capacity = c
  loaded : m.loaded = ((Operation.lastLoad? ops).map fun words => min words.length c).getD 0
  /-- So the cells that a snapshot shows are there. -/
  loaded_le : m.loaded ≤ c
  executed : m.executed = es.countP Event.fetched
  executed_lt : m.executed < 2 ^ 64
  exit : m.exit = (es.filterMap Event.exit?).getLast?
  /-- Another step fetches from inside memory, if it fetches. -/
  fetch : ∀ a, m.step.1.address? = some a → a < c
  /-- Another step loads from or stores into a cell, if it loads or stores. -/
  access : ∀ a x y off,
    m.step.1 = .executed a (.lw x y off) ∨ m.step.1 = .executed a (.sw x y off) →
      0 ≤ m.effective x off ∧ m.effective x off < c
  /-- Whatever comes later, a run that has ended has ended. -/
  final : ∀ more, m.terminated = true → (m.applyAll more).terminated = true

/-- The invariant of all machines that there can be. -/
theorem chronicle_applyAll (c : Nat) (ops : List Operation) (h : ops.count .step < 2 ^ 64) :
    Chronicle c ops (eventsOf ops (blank c)) ((blank c).applyAll ops) := by
  have hcap : ((blank c).applyAll ops).capacity = c := capacity_applyAll (blank c) ops
  have hloaded := loaded_applyAll (blank c) ops
  have hexecuted := executed_applyAll (blank c) ops
  have hexit := exit_applyAll (blank c) ops
  constructor
  case capacity => exact hcap
  case loaded => exact hloaded
  case loaded_le =>
    rw [hloaded]
    cases Operation.lastLoad? ops with
    | none => exact Nat.zero_le c
    | some words => exact Nat.min_le_right _ _
  case executed => rw [hexecuted, blank, Nat.zero_add]
  case executed_lt =>
    have hle := List.countP_le_length (p := Event.fetched) (l := eventsOf ops (blank c))
    have hzero : (blank c).executed = 0 := rfl
    rw [length_eventsOf] at hle
    rw [hexecuted, hzero]
    omega
  case exit => rw [hexit, blank, Option.or_none]
  case fetch =>
    intro a ha
    exact hcap ▸ (pc_of_address? ha).2
  case access =>
    intro a x y off hstep
    have hin := effective_of_step hstep
    rw [hcap] at hin
    exact hin
  case final => exact fun more hterm => terminated_applyAll hterm more

/-- A halt, a step after it, a step from outside memory, and a load with too many words. -/
def errands : List Operation :=
  [.load [0x1800000, 7], .step, .step, .setPc 0xFFFFFFFF, .step, .write 9 1,
    .setRegister (Fin.last 7) 5, .load [1, 2, 3, 4, 5, 6]]

theorem chronicle_applyAll_errands :
    errands.count .step < 2 ^ 64 ∧
    Chronicle 4 errands (eventsOf errands (blank 4)) ((blank 4).applyAll errands) ∧
    ((blank 4).applyAll errands).loaded = 4 ∧ ((blank 4).applyAll errands).executed = 2 ∧
    ((blank 4).applyAll errands).exit = some (.pcOutOfBounds 0xFFFFFFFF) := by
  have hcount : errands.count .step < 2 ^ 64 := by decide
  have h := chronicle_applyAll 4 errands hcount
  have hexecuted : (eventsOf errands (blank 4)).countP Event.fetched = 2 := by decide +kernel
  have hexit : ((eventsOf errands (blank 4)).filterMap Event.exit?).getLast? =
      some (.pcOutOfBounds 0xFFFFFFFF) := by decide +kernel
  exact ⟨hcount, h, h.loaded, h.executed.trans hexecuted, h.exit.trans hexit⟩

end Machine
end SC32
