import Mathlib.Algebra.Group.Nat.Defs
import SC32.Proofs.Machine.Observation
import SC32.Proofs.Machine.Steps

/-!
# What a run is

A run under observers is so many steps in a row: up to the first event that ends a run, or as many
as the budget allows. Every observer is called once before the first step and once after each step,
and the machine that is left behind tells how the last of these steps ended.
-/
namespace SC32

variable {ω : Type}

namespace Hook

theorem inTurn_of_fixed (act : Hook ω → Machine → Machine × List ω) {hooks : List (Hook ω)}
    (h : ∀ g ∈ hooks, ∀ m, (act g m).1 = m) (m : Machine) :
    inTurn act hooks m = (m, hooks.flatMap fun g => (act g m).2) := by
  induction hooks with
  | nil => rfl
  | cons g hooks ih =>
    have hg := h g List.mem_cons_self m
    have hrest := ih fun g' hg' => h g' (List.mem_cons_of_mem g hg')
    simp only [inTurn, hg, hrest, List.flatMap_cons]

theorem observes_of_mem_overhear {hooks : List (Hook ω)} (h : ∀ g ∈ hooks, g.Observes) (i : Nat) :
    ∀ g ∈ overhear hooks i, g.Observes := by
  induction hooks generalizing i with
  | nil => exact fun _ hg => nomatch hg
  | cons g hooks ih =>
    have hrest : ∀ g' ∈ hooks, g'.Observes := fun g' hg' => h g' (List.mem_cons_of_mem g hg')
    have hg := h g List.mem_cons_self
    cases i with
    | zero =>
      rw [overhear, List.forall_mem_cons, List.forall_mem_map]
      exact ⟨hg.overheard, fun g' hg' => (hrest g' hg').mute⟩
    | succ i =>
      rw [overhear, List.forall_mem_cons]
      exact ⟨hg.mute, ih hrest i⟩

/-- Of hooks among which one is overheard, that one speaks. -/
theorem flatMap_overhear (say : Hook Call → List Call) (c : Call)
    (hmute : ∀ g : Hook ω, say g.mute = []) (hover : ∀ g : Hook ω, say g.overheard = [c])
    (hooks : List (Hook ω)) (i : Nat) (hi : i < hooks.length) :
    (overhear hooks i).flatMap say = [c] := by
  induction hooks generalizing i with
  | nil => exact absurd hi (Nat.not_lt_zero i)
  | cons g hooks ih =>
    cases i with
    | zero =>
      have hrest : (hooks.map mute).flatMap say = [] := by
        rw [List.flatMap_map]
        exact List.flatMap_eq_nil_iff.mpr fun g' _ => hmute g'
      rw [overhear, List.flatMap_cons, hover, hrest]
      rfl
    | succ i =>
      rw [overhear, List.flatMap_cons, hmute, ih i (Nat.lt_of_succ_lt_succ hi)]
      rfl

end Hook

namespace Machine

open Hook

/-- How many steps a run under observers makes. -/
def duration (m : Machine) (budget : Option Nat) : Nat := m.stepsWithin (budget.getD unlimited)

theorem terminated_eq_false_iff (m : Machine) : m.terminated = false ↔ m.exit = none := by
  rw [terminated, Option.isSome_eq_false_iff, Option.isNone_iff_eq_none]

/-- Observers see every step up to the first that ends the run, and say what they say to it. -/
theorem runFrom_of_observes {hooks : List (Hook ω)} (h : ∀ g ∈ hooks, g.Observes) {m : Machine}
    (hm : m.exit = none) (n t : Nat) (said : List ω) :
    runFrom hooks n t m said =
      (m.steps (m.stepsWithin n),
        ((List.range (m.stepsWithin n)).flatMap fun k => hooks.flatMap fun g =>
          (g.after (t + k) (m.eventAt k) (m.steps (k + 1))).2).reverse ++ said) := by
  induction n generalizing t m said with
  | zero => rfl
  | succ n ih =>
    have hafter := inTurn_of_fixed (fun g => g.after t m.step.1)
      (fun g hg m' => (h g hg).after t m.step.1 m') m.step.2
    have hexit : m.step.2.exit = m.step.1.exit? := by
      rw [m.records_step.exit, hm, Option.or_none]
    rw [stepsWithin_succ]
    simp only [runFrom, afterAll, hafter, terminated, hexit]
    -- Either this step ends the run, or the rest is the run of the next machine, one time later.
    split
    · simp [eventAt, steps_succ]
    · next hend =>
      have hnone : m.step.2.exit = none := by
        rw [hexit]
        simpa using hend
      rw [ih hnone, steps_step, List.range_succ_eq_map, List.flatMap_cons, List.reverse_append,
        List.append_assoc, List.flatMap_map]
      simp only [eventAt_step, steps_step, Nat.succ_eq_add_one, Nat.add_right_comm t 1,
        ← Nat.add_assoc, Nat.add_zero]
      rfl

theorem run_of_observes {hooks : List (Hook ω)} (h : ∀ g ∈ hooks, g.Observes) {m : Machine}
    (hm : m.exit = none) (budget : Option Nat) :
    m.run hooks budget =
      ⟨m.steps (m.duration budget),
        (hooks.flatMap fun g => (g.start m).2) ++
          (List.range (m.duration budget)).flatMap fun k =>
            hooks.flatMap fun g => (g.after k (m.eventAt k) (m.steps (k + 1))).2⟩ := by
  have hstart := inTurn_of_fixed start (fun g hg m' => (h g hg).start m') m
  simp only [run, startAll, hstart, runFrom_of_observes h hm, List.reverse_append,
    List.reverse_reverse, Nat.zero_add, duration]

/-- An observer is called before the first step and after each step that is made. -/
theorem callsOf_of_observes {hooks : List (Hook ω)} (h : ∀ g ∈ hooks, g.Observes) {m : Machine}
    (hm : m.exit = none) (budget : Option Nat) (i : Nat) (hi : i < hooks.length) :
    m.callsOf hooks i budget =
      .start m :: (List.range (m.duration budget)).map fun k =>
        .after k (m.eventAt k) (m.steps (k + 1)) := by
  have hstart := flatMap_overhear (fun g => (g.start m).2) (.start m)
    (fun _ => rfl) (fun _ => rfl) hooks i hi
  have hafter : ∀ k, (overhear hooks i).flatMap
      (fun g => (g.after k (m.eventAt k) (m.steps (k + 1))).2) =
        [.after k (m.eventAt k) (m.steps (k + 1))] := by
    intro k
    exact flatMap_overhear _ _ (fun _ => rfl) (fun _ => rfl) hooks i hi
  rw [callsOf, run_of_observes (observes_of_mem_overhear h i) hm, hstart, List.map_eq_flatMap]
  simp only [hafter]
  rfl

/-! ### How a run ends -/

/-- What the last of `n` steps from `m` says about the machine `r` they lead to, where at most `t`
steps were allowed. -/
structure Ends (m : Machine) (t n : Nat) (r : Machine) : Prop where
  halted : r.exit = some .halted ↔ ∃ a, (m.events n).getLast? = some (.executed a .halt)
  pc_halted : ∀ a, (m.events n).getLast? = some (.executed a .halt) → a < 2147483647 →
    r.pc.toInt = a + 1
  left : ∀ p, r.exit = some (.pcOutOfBounds p) ↔
    (m.events n).getLast? = some (.pcOutOfBounds p)
  pc_left : ∀ p, (m.events n).getLast? = some (.pcOutOfBounds p) →
    r.pc = p ∧ ¬ (0 ≤ p.toInt ∧ p.toInt < m.capacity)
  /-- The run is not over when the budget is spent and no step was the last one. -/
  running : r.exit = none ↔ n = t ∧ ∀ k < n, (m.eventAt k).exit? = none
  executed : (∀ p, (m.events n).getLast? ≠ some (.pcOutOfBounds p)) →
    r.executed = m.executed + n
  executed_left : ∀ p, (m.events n).getLast? = some (.pcOutOfBounds p) →
    r.executed + 1 = m.executed + n

/-- Before the last step nothing has ended, so its event alone tells how the run ended. -/
theorem exit_stepsWithin {m : Machine} (hm : m.exit = none) (t : Nat) :
    (m.steps (m.stepsWithin t)).exit =
      (m.events (m.stepsWithin t)).getLast?.bind Event.exit? := by
  cases hn : m.stepsWithin t with
  | zero => exact hm
  | succ k =>
    have hbefore : (m.steps k).exit = none := by
      rw [exit_steps fun j hj => exit?_eventAt (t := t) (by omega), hm]
    rw [exit_steps_succ, hbefore, Option.or_none, getLast?_events]
    rfl

/-- All steps but the last one fetch. -/
theorem executed_stepsWithin (m : Machine) {t k : Nat} (hn : m.stepsWithin t = k + 1) :
    (m.steps (k + 1)).executed = m.executed + k + (m.eventAt k).fetched.toNat := by
  have hbefore : (m.steps k).executed = m.executed + k :=
    executed_steps_of_open fun j hj => exit?_eventAt (t := t) (by omega)
  rw [steps_succ, (m.steps k).records_step.executed, hbefore]
  rfl

theorem ends_stepsWithin {m : Machine} (hm : m.exit = none) (t : Nat) :
    m.Ends t (m.stepsWithin t) (m.steps (m.stepsWithin t)) := by
  have hexit := exit_stepsWithin hm t
  constructor
  case halted =>
    simp only [hexit, Option.bind_eq_some_iff, Event.exit?_eq_halted_iff]
    constructor
    · rintro ⟨_, he, a, rfl⟩
      exact ⟨a, he⟩
    · rintro ⟨a, ha⟩
      exact ⟨_, ha, a, rfl⟩
  case pc_halted =>
    intro a ha hlt
    obtain ⟨k, hn, hk⟩ := eventAt_of_getLast? ha
    rw [hn, steps_succ]
    exact pc_of_halt hk hlt
  case left =>
    intro p
    simp only [hexit, Option.bind_eq_some_iff, Event.exit?_eq_left_iff, exists_eq_right]
  case pc_left =>
    intro p hp
    obtain ⟨k, hn, hk⟩ := eventAt_of_getLast? hp
    have hpc := pc_of_left hk
    rw [capacity_steps] at hpc
    rw [hn, steps_succ]
    exact hpc
  case running =>
    constructor
    · intro hnone
      rcases stepsWithin_eq_or m t with hn | ⟨k, hn, hk⟩
      · refine ⟨hn, ?_⟩
        intro k hk
        by_cases hlast : k + 1 < m.stepsWithin t
        · exact exit?_eventAt hlast
        · have hk' : m.stepsWithin t = k + 1 := by omega
          rw [hexit, hk', getLast?_events] at hnone
          exact hnone
      · rw [hexit, hn, getLast?_events] at hnone
        change (m.eventAt k).exit? = none at hnone
        rw [hnone] at hk
        cases hk
    · intro h
      rw [exit_steps h.2, hm]
  case executed =>
    intro hne
    cases hn : m.stepsWithin t with
    | zero => rfl
    | succ k =>
      have hfetched : (m.eventAt k).fetched = true := by
        rw [← Bool.not_eq_false, Event.fetched_eq_false_iff]
        rintro ⟨p, hp⟩
        exact hne p (by rw [hn, getLast?_events, hp])
      rw [executed_stepsWithin m hn, hfetched, Nat.add_assoc]
      rfl
  case executed_left =>
    intro p hp
    obtain ⟨k, hn, hk⟩ := eventAt_of_getLast? hp
    have hfetched : (m.eventAt k).fetched = false := by
      rw [Event.fetched_eq_false_iff]
      exact ⟨p, hk⟩
    rw [hn, executed_stepsWithin m hn, hfetched]
    rfl

/-- A run of a machine that has not terminated, under any observers: it makes as many steps as it
takes to come to an event that ends it, or else as many as the budget allows. It leaves the machine
that these steps lead to, and what the observers said before the first step and after each one.
Every observer is called that often and not again, with the time and the event of the step. The last
event tells how the run ended, and 64 bits hold the counter. -/
theorem run_exact (observers : List Observer) (budget : Option Nat) (m : Machine)
    (hm : m.terminated = false) (hcount : m.executed + budget.getD unlimited < 2 ^ 64) :
    m.run (observers.map Observer.hook) budget =
      ⟨m.steps (m.duration budget),
        (observers.flatMap fun o => (o.hook.start m).2) ++
          (List.range (m.duration budget)).flatMap fun k =>
            observers.flatMap fun o => (o.hook.after k (m.eventAt k) (m.steps (k + 1))).2⟩ ∧
    (∀ i < observers.length, m.callsOf (observers.map Observer.hook) i budget =
      .start m :: (List.range (m.duration budget)).map fun k =>
        .after k (m.eventAt k) (m.steps (k + 1))) ∧
    m.Ends (budget.getD unlimited) (m.duration budget) (m.steps (m.duration budget)) ∧
    (m.steps (m.duration budget)).executed < 2 ^ 64 := by
  rw [terminated_eq_false_iff] at hm
  have hobs : ∀ g ∈ observers.map Observer.hook, g.Observes := by
    rw [List.forall_mem_map]
    exact fun o _ => o.observes
  refine ⟨?_, ?_, ends_stepsWithin hm _, ?_⟩
  · have hrun := run_of_observes hobs hm budget
    simp only [List.flatMap_map] at hrun
    exact hrun
  · intro i hi
    exact callsOf_of_observes hobs hm budget i (by rwa [List.length_map])
  · have hgrowth := executed_steps_le m (m.duration budget)
    have hle : m.duration budget ≤ budget.getD unlimited := stepsWithin_le m _
    omega

/-- A load, then a branch that leaves a memory of four cells. -/
def leap : Machine := (blank 4).load [0x810001, 0x1000005]

theorem run_exact_leap :
    leap.terminated = false ∧ leap.executed + 10 < 2 ^ 64 ∧
    leap.callsOf ([.report true, .watch .empty []].map Observer.hook) 1 (some 10) =
      [.start leap,
        .after 0 (.executed 0 (.lw 0 1 1)) (leap.steps 1),
        .after 1 (.executed 1 (.beq 0 0 5)) (leap.steps 2),
        .after 2 (.pcOutOfBounds 7) (leap.steps 3)] ∧
    (leap.run ([.report true, .watch .empty []].map Observer.hook) (some 10)).final =
      leap.steps 3 ∧
    (leap.steps 3).exit = some (.pcOutOfBounds 7) ∧ (leap.steps 3).executed = 2 := by
  have hcount : leap.executed + 10 < 2 ^ 64 := by decide
  obtain ⟨hrun, hcalls, hends, -⟩ :=
    run_exact [.report true, .watch .empty []] (some 10) leap rfl hcount
  have hn : leap.duration (some 10) = 3 := by decide +kernel
  rw [hn] at hrun hcalls hends
  have hlast : (leap.events 3).getLast? = some (.pcOutOfBounds 7) := by decide +kernel
  have h₀ : leap.eventAt 0 = .executed 0 (.lw 0 1 1) := by decide +kernel
  have h₁ : leap.eventAt 1 = .executed 1 (.beq 0 0 5) := by decide +kernel
  have h₂ : leap.eventAt 2 = .pcOutOfBounds 7 := by decide +kernel
  refine ⟨rfl, hcount, ?_, ?_, (hends.left 7).mpr hlast,
    Nat.succ.inj (hends.executed_left 7 hlast)⟩
  · rw [hcalls 1 (by decide), ← h₀, ← h₁, ← h₂]
    rfl
  · rw [hrun]

end Machine
end SC32
