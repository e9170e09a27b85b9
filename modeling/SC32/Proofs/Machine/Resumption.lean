import SC32.Proofs.Machine.ObservedRun

/-!
# Runs that are resumed

A run that its budget stops can go on with another budget as if it had not been stopped: it ends
where one run with both budgets ends, and hooks are called for the same steps. A run that has ended
by itself is not changed by a greater budget, and to run it again takes one more step. Main
statements: how many steps two budgets are good for, and the run of a machine that has terminated.
-/
namespace SC32

variable {ω : Type}

namespace Call

/-- The call is made after a step. -/
def isAfter : Call → Bool
  | .start _ => false
  | .after .. => true

/-- The same call, `d` steps later. -/
def later (d : Nat) : Call → Call
  | .start m => .start m
  | .after time e m => .after (time + d) e m

end Call

namespace Machine

open Hook

/-- What hook number `i` is told of the steps of a run. -/
def logOf (hooks : List (Hook ω)) (i : Nat) (budget : Option Nat) (m : Machine) : List Call :=
  (m.callsOf hooks i budget).filter Call.isAfter

variable {hooks : List (Hook ω)} {m : Machine} {i : Nat}

theorem final_of_observes (h : ∀ g ∈ hooks, g.Observes) (hm : m.exit = none) (t : Nat) :
    (m.run hooks (some t)).final = m.steps (m.stepsWithin t) := by
  rw [run_of_observes h hm]
  rfl

theorem logOf_of_observes (h : ∀ g ∈ hooks, g.Observes) (hm : m.exit = none) (t : Nat)
    (hi : i < hooks.length) :
    m.logOf hooks i (some t) = (List.range (m.stepsWithin t)).map fun k =>
      .after k (m.eventAt k) (m.steps (k + 1)) := by
  rw [logOf, callsOf_of_observes h hm (some t) i hi, List.filter_cons_of_neg (by simp [Call.isAfter]),
    List.filter_eq_self.mpr (by simp [Call.isAfter])]
  rfl

/-! ### Two budgets -/

/-- A budget that is used up without an end has been good for so many steps. -/
theorem stepsWithin_of_running (hm : m.exit = none) {a : Nat}
    (hr : (m.steps (m.stepsWithin a)).exit = none) (t : Nat) :
    m.stepsWithin a = a ∧ m.stepsWithin (a + t) = a + (m.steps a).stepsWithin t := by
  obtain ⟨ha, hall⟩ := (ends_stepsWithin hm a).running.mp hr
  rw [ha] at hall
  exact ⟨ha, by rw [stepsWithin_add, if_pos hall]⟩

/-- Where a run has ended, more budget makes no more steps. -/
theorem stepsWithin_of_ended (hm : m.exit = none) {a : Nat}
    (hr : (m.steps (m.stepsWithin a)).exit ≠ none) (t : Nat) :
    m.stepsWithin (a + t) = m.stepsWithin a := by
  rw [stepsWithin_add, if_neg]
  intro hall
  have ha : m.stepsWithin (a + 0) = a + 0 := by
    rw [stepsWithin_add, if_pos hall]
    rfl
  rw [Nat.add_zero] at ha
  exact hr ((ends_stepsWithin hm a).running.mpr ⟨ha, ha.symm ▸ hall⟩)

/-- The steps of a second run are those that follow the steps of the first. -/
theorem map_after_add (m : Machine) (a n : Nat) :
    ((List.range (a + n)).map fun k => Call.after k (m.eventAt k) (m.steps (k + 1))) =
      ((List.range a).map fun k => Call.after k (m.eventAt k) (m.steps (k + 1))) ++
        ((List.range n).map fun k =>
          Call.after k ((m.steps a).eventAt k) ((m.steps a).steps (k + 1))).map (Call.later a) := by
  rw [List.range_add, List.map_append, List.map_map, List.map_map]
  congr 2
  funext k
  simp [Call.later, ← eventAt_add, ← steps_add, Nat.add_assoc, Nat.add_comm]

/-! ### A machine that has terminated -/

/-- Whether a run is over is asked after the step, so there is one. -/
theorem runFrom_of_terminated (h : ∀ g ∈ hooks, g.Observes) (hm : m.terminated = true) (n t : Nat)
    (said : List ω) :
    runFrom hooks (n + 1) t m said =
      (m.step.2, (hooks.flatMap fun g => (g.after t m.step.1 m.step.2).2).reverse ++ said) := by
  have hafter := inTurn_of_fixed (fun g => g.after t m.step.1)
    (fun g hg m' => (h g hg).after t m.step.1 m') m.step.2
  have hterm : m.step.2.terminated = true := terminated_step hm
  simp only [runFrom, afterAll, hafter, hterm, if_true]

theorem run_of_terminated (h : ∀ g ∈ hooks, g.Observes) (hm : m.terminated = true) (n : Nat) :
    m.run hooks (some (n + 1)) =
      ⟨m.step.2, (hooks.flatMap fun g => (g.start m).2) ++
        hooks.flatMap fun g => (g.after 0 m.step.1 m.step.2).2⟩ := by
  have hstart := inTurn_of_fixed start (fun g hg m' => (h g hg).start m') m
  simp [run, startAll, hstart, runFrom_of_terminated h hm]

theorem callsOf_of_terminated (h : ∀ g ∈ hooks, g.Observes) (hm : m.terminated = true) (n : Nat)
    (hi : i < hooks.length) :
    m.callsOf hooks i (some (n + 1)) = [.start m, .after 0 m.step.1 m.step.2] := by
  have hstart := flatMap_overhear (fun g => (g.start m).2) (.start m)
    (fun _ => rfl) (fun _ => rfl) hooks i hi
  have hafter := flatMap_overhear (fun g => (g.after 0 m.step.1 m.step.2).2)
    (.after 0 m.step.1 m.step.2) (fun _ => rfl) (fun _ => rfl) hooks i hi
  rw [callsOf, run_of_terminated (observes_of_mem_overhear h i) hm, hstart, hafter]
  rfl

/-- A run counts no more than its budget. -/
theorem executed_final_le (h : ∀ g ∈ hooks, g.Observes) (m : Machine) (t : Nat) :
    (m.run hooks (some t)).final.executed ≤ m.executed + t := by
  cases hm : m.terminated with
  | false =>
    have hgrowth := executed_steps_le m (m.stepsWithin t)
    have hle := stepsWithin_le m t
    rw [final_of_observes h ((terminated_eq_false_iff m).mp hm)]
    omega
  | true =>
    cases t with
    | zero =>
      have hstart := inTurn_of_fixed start (fun g hg m' => (h g hg).start m') m
      simp [run, startAll, hstart, runFrom]
    | succ n =>
      have hgrowth : m.step.2.executed ≤ m.executed + 1 := executed_steps_le m 1
      rw [run_of_terminated h hm]
      change m.step.2.executed ≤ _
      omega

/-! ### The seam -/

/-- What the machine `r`, which a run of `m` with a budget of `a` steps leaves, says about `b` steps
more. -/
structure Resumes (hooks : List (Hook ω)) (m : Machine) (a b : Nat) (r : Machine) : Prop where
  final : r.terminated = false →
    (r.run hooks (some b)).final = (m.run hooks (some (a + b))).final
  log : r.terminated = false → ∀ i < hooks.length,
    m.logOf hooks i (some (a + b)) =
      m.logOf hooks i (some a) ++ (r.logOf hooks i (some b)).map (Call.later a)
  final_ended : r.terminated = true → r = (m.run hooks (some (a + b))).final
  log_ended : r.terminated = true → ∀ i < hooks.length,
    m.logOf hooks i (some (a + b)) = m.logOf hooks i (some a)
  /-- Once more, the terminated machine makes one step and has terminated. -/
  again : r.terminated = true → 1 ≤ b →
    (r.run hooks (some b)).final = r.step.2 ∧ r.step.2.terminated = true ∧
      ∀ i < hooks.length, r.logOf hooks i (some b) = [.after 0 r.step.1 r.step.2]

theorem resumes_of_running (h : ∀ g ∈ hooks, g.Observes) (hm : m.exit = none) {a : Nat}
    (hr : (m.steps (m.stepsWithin a)).exit = none) (b : Nat) :
    Resumes hooks m a b (m.steps (m.stepsWithin a)) := by
  obtain ⟨ha, hab⟩ := stepsWithin_of_running hm hr b
  have hterm : (m.steps (m.stepsWithin a)).terminated = false := (terminated_eq_false_iff _).mpr hr
  constructor
  case final =>
    intro _
    rw [final_of_observes h hr, final_of_observes h hm, hab, ha, steps_add]
  case log =>
    intro _ i hi
    rw [logOf_of_observes h hr b hi, logOf_of_observes h hm a hi, logOf_of_observes h hm (a + b) hi,
      hab, ha, map_after_add]
  all_goals
    intro ht
    rw [hterm] at ht
    cases ht

theorem resumes_of_ended (h : ∀ g ∈ hooks, g.Observes) (hm : m.exit = none) {a : Nat}
    (hr : (m.steps (m.stepsWithin a)).exit ≠ none) (b : Nat) :
    Resumes hooks m a b (m.steps (m.stepsWithin a)) := by
  have hab := stepsWithin_of_ended hm hr b
  have hterm : (m.steps (m.stepsWithin a)).terminated ≠ false :=
    fun hf => hr ((terminated_eq_false_iff _).mp hf)
  constructor
  case final_ended =>
    intro _
    rw [final_of_observes h hm, hab]
  case log_ended =>
    intro _ i hi
    rw [logOf_of_observes h hm a hi, logOf_of_observes h hm (a + b) hi, hab]
  case again =>
    intro ht hb
    obtain ⟨n, rfl⟩ : ∃ n, b = n + 1 := ⟨b - 1, by omega⟩
    refine ⟨?_, terminated_step ht, ?_⟩
    · rw [run_of_terminated h ht]
    · intro i hi
      rw [logOf, callsOf_of_terminated h ht n hi]
      rfl
  all_goals exact fun hf => absurd hf hterm

/-- A run under any hooks that leave the machine alone, stopped after a budget of `a` and resumed
with a budget of `b`, against one run with a budget of `a + b`; 64 bits hold every counter. -/
theorem resumption_exact (hooks : List (Hook ω)) (h : ∀ g ∈ hooks, g.Observes) (m : Machine)
    (hm : m.terminated = false) (a b : Nat) (hcount : m.executed + a + b < 2 ^ 64) :
    Resumes hooks m a b (m.run hooks (some a)).final ∧
    (m.run hooks (some (a + b))).final.executed < 2 ^ 64 ∧
    ((m.run hooks (some a)).final.run hooks (some b)).final.executed < 2 ^ 64 := by
  rw [terminated_eq_false_iff] at hm
  have hboth := executed_final_le h m (a + b)
  have hfirst := executed_final_le h m a
  have hsecond := executed_final_le h (m.run hooks (some a)).final b
  refine ⟨?_, by omega, by omega⟩
  rw [final_of_observes h hm]
  by_cases hr : (m.steps (m.stepsWithin a)).exit = none
  · exact resumes_of_running h hm hr b
  · exact resumes_of_ended h hm hr b

/-- What a run with that budget makes of a machine that ends after three steps. -/
def leapWithin (budget : Nat) : Machine := (leap.run [Report.hook true] (some budget)).final

theorem resumption_exact_leap :
    (∀ g ∈ [Report.hook true], g.Observes) ∧ leap.terminated = false ∧
    leap.executed + 3 + 5 < 2 ^ 64 ∧
    (leapWithin 2).terminated = false ∧
    ((leapWithin 2).run [Report.hook true] (some 5)).final = leapWithin 7 ∧
    (leapWithin 3).terminated = true ∧ leapWithin 3 = leapWithin 8 ∧
    ((leapWithin 3).run [Report.hook true] (some 5)).final = (leapWithin 3).step.2 := by
  have hobs : ∀ g ∈ [Report.hook true], g.Observes :=
    List.forall_mem_singleton.mpr (Observer.report true).observes
  have hcount : leap.executed + 3 + 5 < 2 ^ 64 := by decide
  have hstopped : (leapWithin 2).terminated = false := by decide +kernel
  have hended : (leapWithin 3).terminated = true := by decide +kernel
  obtain ⟨hearly, -, -⟩ := resumption_exact _ hobs leap rfl 2 5 (by decide)
  obtain ⟨hlate, -, -⟩ := resumption_exact _ hobs leap rfl 3 5 hcount
  exact ⟨hobs, rfl, hcount, hstopped, hearly.final hstopped, hended, hlate.final_ended hended,
    (hlate.again hended (by decide)).1⟩

end Machine
end SC32
