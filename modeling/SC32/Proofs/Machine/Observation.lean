import SC32.Machine.Report
import SC32.Machine.Watch

/-!
# Observers do not interfere

A hook is muted by taking away what it says, and overheard by letting it say what it is called with.
Neither changes what it does to the machine, so neither changes the run. An observer leaves the
machine as it is, and a muted observer might as well not be there: put in anywhere, it changes
neither where the run ends nor what any other hook is called with.
-/
namespace SC32

variable {ω κ : Type}

/-- What a hook is called with. -/
inductive Call where
  /-- Before the first step. -/
  | start (m : Machine)
  | after (time : Nat) (e : Event) (m : Machine)
  deriving DecidableEq

namespace Hook

/-- The hook leaves every machine as it is. -/
structure Observes (h : Hook ω) : Prop where
  start : ∀ m, (h.start m).1 = m
  after : ∀ time e m, (h.after time e m).1 = m

/-- The same changes to the machine, without a word. -/
def mute (h : Hook ω) : Hook κ :=
  ⟨fun m => ((h.start m).1, []), fun time e m => ((h.after time e m).1, [])⟩

/-- The same changes to the machine; what is said is what the hook is called with. -/
def overheard (h : Hook ω) : Hook Call :=
  ⟨fun m => ((h.start m).1, [.start m]),
    fun time e m => ((h.after time e m).1, [.after time e m])⟩

/-- Hook number `i` is overheard and the others are muted. -/
def overhear : List (Hook ω) → (i : Nat) → List (Hook Call)
  | [], _ => []
  | h :: hs, 0 => h.overheard :: hs.map mute
  | h :: hs, i + 1 => h.mute :: overhear hs i

theorem observes_observe (opening : Machine → List ω) (each : Nat → Event → Machine → List ω) :
    (observe opening each).Observes := ⟨fun _ => rfl, fun _ _ _ => rfl⟩

theorem Observes.mute {h : Hook ω} (ho : h.Observes) : (h.mute : Hook κ).Observes :=
  ⟨ho.start, ho.after⟩

theorem Observes.overheard {h : Hook ω} (ho : h.Observes) : h.overheard.Observes :=
  ⟨ho.start, ho.after⟩

theorem map_mute_overhear (hs : List (Hook ω)) (i : Nat) :
    (overhear hs i).map (mute : Hook Call → Hook κ) = hs.map mute := by
  induction hs generalizing i with
  | nil => rfl
  | cons h hs ih =>
    cases i with
    | zero =>
      rw [overhear, List.map_cons, List.map_cons, List.map_map]
      rfl
    | succ i =>
      rw [overhear, List.map_cons, List.map_cons, ih]
      rfl

/-- Where another hook is put in, those before it keep their numbers and those behind it move up by
one, and it is muted itself. -/
theorem overhear_insert (o : Hook ω) (before behind : List (Hook ω)) (i : Nat) :
    ∃ as bs, overhear (before ++ o :: behind) (if i < before.length then i else i + 1) =
        as ++ o.mute :: bs ∧
      overhear (before ++ behind) i = as ++ bs := by
  -- At the place itself the new hook has number 0, and the one that is listened to comes later.
  induction before generalizing i with
  | nil => exact ⟨[], overhear behind i, rfl, rfl⟩
  | cons h before ih =>
    cases i with
    | zero =>
      have hfirst : 0 < (h :: before).length := Nat.succ_pos _
      refine ⟨h.overheard :: before.map mute, behind.map mute, ?_, ?_⟩
      · rw [if_pos hfirst, List.cons_append, overhear, List.map_append, List.map_cons,
          List.cons_append]
      · rw [List.cons_append, overhear, List.map_append, List.cons_append]
    | succ i =>
      obtain ⟨as, bs, h₁, h₂⟩ := ih i
      have hnext : (if i + 1 < (h :: before).length then i + 1 else i + 1 + 1) =
          (if i < before.length then i else i + 1) + 1 := by
        rw [List.length_cons]
        split <;> split <;> omega
      refine ⟨h.mute :: as, bs, ?_, ?_⟩
      · rw [hnext, List.cons_append, overhear, h₁, List.cons_append]
      · rw [List.cons_append, overhear, h₂, List.cons_append]

/-! ### A hook that does nothing -/

/-- In the turn of calls, one that changes nothing and says nothing is not missed. -/
theorem inTurn_insert {act : Hook ω → Machine → Machine × List ω} {o : Hook ω}
    (ho : ∀ m, act o m = (m, [])) (before behind : List (Hook ω)) (m : Machine) :
    inTurn act (before ++ o :: behind) m = inTurn act (before ++ behind) m := by
  induction before generalizing m with
  | nil => simp only [List.nil_append, inTurn, ho]
  | cons h before ih => simp only [List.cons_append, inTurn, ih]

theorem inTurn_mute {act : Hook ω → Machine → Machine × List ω}
    {act' : Hook κ → Machine → Machine × List κ}
    (hact : ∀ h m, act' (mute h) m = ((act h m).1, [])) (hs : List (Hook ω)) (m : Machine) :
    inTurn act' (hs.map mute) m = ((inTurn act hs m).1, []) := by
  induction hs generalizing m with
  | nil => rfl
  | cons h hs ih => simp only [List.map_cons, inTurn, hact, ih, List.append_nil]

end Hook

namespace Machine

open Hook

/-- What hook number `i` is called with in a run, from the first call to the last. -/
def callsOf (hooks : List (Hook ω)) (i : Nat) (budget : Option Nat) (m : Machine) : List Call :=
  (m.run (overhear hooks i) budget).output

/-- A muted observer does nothing at all. -/
theorem runFrom_insert {o : Hook ω} (ho : o.Observes) (before behind : List (Hook κ)) (n t : Nat)
    (m : Machine) (said : List κ) :
    runFrom (before ++ o.mute :: behind) n t m said = runFrom (before ++ behind) n t m said := by
  -- The other hooks may change the machine, so the calls after a step are compared for any machine.
  induction n generalizing t m said with
  | zero => rfl
  | succ n ih =>
    have hafter : ∀ e m', afterAll (before ++ o.mute :: behind) t e m' =
        afterAll (before ++ behind) t e m' := by
      intro e m'
      refine inTurn_insert ?_ before behind m'
      intro m''
      exact congrArg (·, []) (ho.after t e m'')
    simp only [runFrom, hafter, ih]

theorem run_insert {o : Hook ω} (ho : o.Observes) (before behind : List (Hook κ))
    (budget : Option Nat) (m : Machine) :
    m.run (before ++ o.mute :: behind) budget = m.run (before ++ behind) budget := by
  have hstart : startAll (before ++ o.mute :: behind) m = startAll (before ++ behind) m := by
    refine inTurn_insert ?_ before behind m
    intro m'
    exact congrArg (·, []) (ho.start m')
  simp only [run, hstart, runFrom_insert ho]

theorem runFrom_mute (hooks : List (Hook ω)) (n t : Nat) (m : Machine) (said : List ω)
    (said' : List κ) :
    runFrom (hooks.map mute) n t m said' = ((runFrom hooks n t m said).1, said') := by
  induction n generalizing t m said with
  | zero => rfl
  | succ n ih =>
    have hafter : afterAll (hooks.map mute) t m.step.1 m.step.2 =
        ((afterAll hooks t m.step.1 m.step.2).1, ([] : List κ)) :=
      inTurn_mute (fun _ _ => rfl) hooks m.step.2
    simp only [runFrom, hafter, List.reverse_nil, List.nil_append]
    split
    · rfl
    · exact ih (t + 1) _ _

/-- Muted hooks lead to the same end. -/
theorem run_mute (hooks : List (Hook ω)) (budget : Option Nat) (m : Machine) :
    m.run (hooks.map (mute : Hook ω → Hook κ)) budget = ⟨(m.run hooks budget).final, []⟩ := by
  have hstart : startAll (hooks.map mute) m = ((startAll hooks m).1, ([] : List κ)) :=
    inTurn_mute (fun _ _ => rfl) hooks m
  simp only [run, hstart, List.reverse_nil, runFrom_mute hooks _ _ _ (startAll hooks m).2.reverse]

/-- Listening to a hook does not change where the run ends. -/
theorem final_overhear (hooks : List (Hook ω)) (i : Nat) (budget : Option Nat) (m : Machine) :
    (m.run (overhear hooks i) budget).final = (m.run hooks budget).final := by
  have h : m.run ((overhear hooks i).map (mute : Hook Call → Hook ω)) budget =
      ⟨(m.run (overhear hooks i) budget).final, []⟩ := run_mute _ budget m
  rw [map_mute_overhear, run_mute, Run.mk.injEq] at h
  exact h.1.symm

theorem final_insert {o : Hook ω} (ho : o.Observes) (before behind : List (Hook ω))
    (budget : Option Nat) (m : Machine) :
    (m.run (before ++ o :: behind) budget).final = (m.run (before ++ behind) budget).final := by
  have h := run_insert ho (before.map mute) (behind.map (mute : Hook ω → Hook ω)) budget m
  rw [← List.map_cons, ← List.map_append, ← List.map_append, run_mute, run_mute,
    Run.mk.injEq] at h
  exact h.1

theorem callsOf_insert {o : Hook ω} (ho : o.Observes) (before behind : List (Hook ω)) (i : Nat)
    (budget : Option Nat) (m : Machine) :
    m.callsOf (before ++ o :: behind) (if i < before.length then i else i + 1) budget =
      m.callsOf (before ++ behind) i budget := by
  obtain ⟨as, bs, h₁, h₂⟩ := overhear_insert o before behind i
  rw [callsOf, callsOf, h₁, h₂, run_insert ho]

end Machine

/-- The state report, in full or only what is out of the ordinary, or a watch list. -/
inductive Observer where
  | report (verbose : Bool)
  | watch (l : WatchList) (opening : List String)

def Observer.hook : Observer → Hook String
  | .report verbose => Report.hook verbose
  | .watch l opening => l.hook opening

theorem Observer.observes (o : Observer) : o.hook.Observes := by
  cases o with
  | report verbose => exact Hook.observes_observe _ _
  | watch l opening => exact Hook.observes_observe _ _

namespace Machine

open Hook

theorem final_observers (observers : List Observer) (budget : Option Nat) (m : Machine) :
    (m.run (observers.map Observer.hook) budget).final =
      (m.run ([] : List (Hook String)) budget).final := by
  induction observers with
  | nil => rfl
  | cons o observers ih => exact (final_insert o.observes [] _ budget m).trans ih

/-- An observer put in anywhere changes neither where the run ends nor what any other hook is
called with: those behind it move up by one. So a run with observers only ends like one with no
hooks. Hooks are overheard in a run that ends like the one they are in. -/
theorem observers_do_not_interfere (budget : Option Nat) (m : Machine) :
    (∀ (before behind : List (Hook String)) (o : Observer),
      (m.run (before ++ o.hook :: behind) budget).final = (m.run (before ++ behind) budget).final ∧
      ∀ i, m.callsOf (before ++ o.hook :: behind) (if i < before.length then i else i + 1) budget =
        m.callsOf (before ++ behind) i budget) ∧
    (∀ observers : List Observer, (m.run (observers.map Observer.hook) budget).final =
      (m.run ([] : List (Hook String)) budget).final) ∧
    ∀ (hooks : List (Hook String)) i,
      (m.run (overhear hooks i) budget).final = (m.run hooks budget).final := by
  refine ⟨?_, fun observers => final_observers observers budget m,
    fun hooks i => final_overhear hooks i budget m⟩
  intro before behind o
  exact ⟨final_insert o.observes before behind budget m,
    fun i => callsOf_insert o.observes before behind i budget m⟩

end Machine
end SC32
