import SC32.Proofs.Assembly.Exact
import SC32.Proofs.Machine.ObservedRun
import SC32.Proofs.Machine.Stores
import SC32.Proofs.MachineCode.RoundTrip

/-!
# An assembled program in memory

However a program runs that has been assembled and loaded, its memory holds what was loaded but
where the program itself has stored something, and a word that cannot be carried out either was
filled in by a line or was stored there. Main statements: the cells of a program, and the origin of
an unknown word, after any number of steps.
-/
namespace SC32.Assembly

variable {source : List String} {ws : List Word}

/-- What is known of the program after `n` steps of a machine `m` that it was loaded into. -/
structure Intact (source : List String) (ws : List Word) (m : Machine) (n : Nat) : Prop where
  /-- A cell that nothing has been stored into is as it was loaded, and 0 behind the program. -/
  cells : ∀ a < m.capacity, ¬ m.Stored n a → (m.steps n).cell? a = some (ws[a]?.getD 0)
  /-- A word that the next step cannot carry out was filled in or has been stored. -/
  unknown : ∀ a w, m.eventAt n = .unknownOpcode a w → FillAt source a ∨ m.Stored n a

/-- What a fresh machine holds after a load. -/
theorem cell?_blank_load (ws : List Word) {c a : Nat} (ha : a < c) :
    ((Machine.blank c).load ws).cell? a = some (ws[a]?.getD 0) := by
  have hzero : (Machine.blank c).memory.read a = 0 := Memory.read_blank c a
  rw [Machine.cell?_load, hzero]
  exact if_pos ha

theorem intact_of_assemble (h : assemble source = .ok ws) (c n : Nat) :
    Intact source ws ((Machine.blank c).load ws) n := by
  have hcap : ((Machine.blank c).load ws).capacity = c := Machine.capacity_load _ ws
  have hcells : ∀ a < c, ¬ ((Machine.blank c).load ws).Stored n a →
      (((Machine.blank c).load ws).steps n).cell? a = some (ws[a]?.getD 0) := by
    intro a ha hstored
    rw [Machine.cell?_steps hstored, cell?_blank_load ws ha]
  constructor
  case cells => exact fun a ha => hcells a (hcap ▸ ha)
  case unknown =>
    intro a w hevent
    obtain ⟨hcell, hnone⟩ := Machine.cell?_of_unknown hevent
    by_cases hstored : ((Machine.blank c).load ws).Stored n a
    · exact .inr hstored
    · have ha : a < c := by
        have hlt := Machine.lt_capacity_of_cell? hcell
        rwa [Machine.capacity_steps, hcap] at hlt
      rw [hcells a ha hstored, Option.some.injEq] at hcell
      cases hw : ws[a]? with
      | none =>
        -- Behind the program there are zeros, and 0 is an instruction.
        rw [hw] at hcell
        subst hcell
        exact absurd rfl (hnone (.add 0 0 0))
      | some v =>
        rw [hw] at hcell
        subst hcell
        obtain hfill | ⟨-, j, -, rfl⟩ := fillAt_or_encode_of_assemble h hw
        · exact .inl hfill
        · exact absurd (Instruction.decode_encode j) (hnone j)

/-- Every run of a program in a fresh machine of any capacity, under hooks that leave the machine
alone, is so many steps in a row, and the hooks are called for each of them. After each of them,
the memory is the loaded one but for what the program has stored, and if the next one finds no
instruction, the word was filled in by a line of the program or has been stored. -/
theorem intact_exact (source : List String) (ws : List Word) (h : assemble source = .ok ws)
    (c : Nat) :
    (∀ (ω : Type) (hooks : List (Hook ω)), (∀ g ∈ hooks, g.Observes) → ∀ budget,
      (((Machine.blank c).load ws).run hooks budget).final =
        ((Machine.blank c).load ws).steps (((Machine.blank c).load ws).duration budget) ∧
      ∀ i < hooks.length, ((Machine.blank c).load ws).callsOf hooks i budget =
        .start ((Machine.blank c).load ws) ::
          (List.range (((Machine.blank c).load ws).duration budget)).map fun k =>
            .after k (((Machine.blank c).load ws).eventAt k)
              (((Machine.blank c).load ws).steps (k + 1))) ∧
    ∀ n, Intact source ws ((Machine.blank c).load ws) n := by
  have hfresh : ((Machine.blank c).load ws).exit = none := rfl
  refine ⟨?_, fun n => intact_of_assemble h c n⟩
  intro ω hooks hobs budget
  refine ⟨?_, fun i hi => Machine.callsOf_of_observes hobs hfresh budget i hi⟩
  rw [Machine.run_of_observes hobs hfresh budget]

/-- The first two words copy the last one, which is no instruction, over the third. -/
def spoiler : List String := ["lw 0 1 bad", "sw 0 1 next", "next noop", "halt", "bad .fill -1"]

def spoilerWords : List Word := [0x810004, 0xC10002, 0x1C00000, 0x1800000, 0xFFFFFFFF]

theorem intact_exact_spoiler :
    assemble spoiler = .ok spoilerWords ∧
    ((Machine.blank 6).load spoilerWords).eventAt 2 = .unknownOpcode 2 0xFFFFFFFF ∧
    (FillAt spoiler 2 ∨ ((Machine.blank 6).load spoilerWords).Stored 2 2) ∧
    (((Machine.blank 6).load spoilerWords).steps 2).cell? 3 = some 0x1800000 ∧
    (((Machine.blank 6).load spoilerWords).steps 2).cell? 5 = some 0 := by
  have h : assemble spoiler = .ok spoilerWords := rfl
  have hintact := (intact_exact spoiler spoilerWords h 6).2 2
  have hevent : ((Machine.blank 6).load spoilerWords).eventAt 2 = .unknownOpcode 2 0xFFFFFFFF := by
    decide +kernel
  exact ⟨h, hevent, hintact.unknown 2 _ hevent, hintact.cells 3 (by decide) (by decide +kernel),
    hintact.cells 5 (by decide) (by decide +kernel)⟩

end SC32.Assembly
