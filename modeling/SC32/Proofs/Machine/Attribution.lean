import SC32.Proofs.Machine.ObservedRun

/-!
# Who said what

A run records what all hooks said, in order but without names. Where every hook puts its number in
front of what it says, the run is the same one, and what one hook said can be told from the rest.
Main statements: the run with numbers, and what an observer says in it, with nobody left over.
-/
namespace SC32

variable {ω κ : Type}

namespace Hook

/-- The same changes to the machine; what is said goes through `f`. -/
def map (f : ω → κ) (h : Hook ω) : Hook κ :=
  ⟨fun m => ((h.start m).1, (h.start m).2.map f),
    fun time e m => ((h.after time e m).1, (h.after time e m).2.map f)⟩

/-- Each hook puts its place in the list in front of what it says. -/
def numbered (hooks : List (Hook ω)) : List (Hook (Nat × ω)) :=
  hooks.zipIdx.map fun (h, i) => h.map (i, ·)

/-- A word with a number, if the number is `i`. -/
def saying (i : Nat) (p : Nat × ω) : Option ω := if p.1 = i then some p.2 else none

theorem Observes.map {h : Hook ω} (ho : h.Observes) (f : ω → κ) : (h.map f).Observes :=
  ⟨ho.start, ho.after⟩

theorem observes_of_mem_numbered {hooks : List (Hook ω)} (h : ∀ g ∈ hooks, g.Observes) :
    ∀ g ∈ numbered hooks, g.Observes := by
  rw [numbered, List.forall_mem_map]
  intro p hp
  exact (h p.1 (List.fst_mem_of_mem_zipIdx hp)).map _

/-- Without the numbers the hooks are back. -/
theorem map_snd_numbered (hooks : List (Hook ω)) :
    (numbered hooks).map (map Prod.snd) = hooks := by
  have hback : ∀ p : Hook ω × Nat, (p.1.map (p.2, ·)).map Prod.snd = p.1 := by
    rintro ⟨⟨start, after⟩, i⟩
    simp only [map, List.map_map, Function.comp_def, List.map_id']
  rw [numbered, List.map_map]
  refine Eq.trans (List.map_congr_left fun p _ => hback p) ?_
  exact List.zipIdx_map_fst 0 hooks

theorem inTurn_map {act : Hook ω → Machine → Machine × List ω}
    {act' : Hook κ → Machine → Machine × List κ} {f : ω → κ}
    (hact : ∀ h m, act' (map f h) m = ((act h m).1, (act h m).2.map f)) (hooks : List (Hook ω))
    (m : Machine) :
    inTurn act' (hooks.map (map f)) m =
      ((inTurn act hooks m).1, (inTurn act hooks m).2.map f) := by
  induction hooks generalizing m with
  | nil => rfl
  | cons h hooks ih => simp only [List.map_cons, inTurn, hact, ih, List.map_append]

/-- Of words with numbers, those with number `i` are the words of one speaker. -/
theorem flatMap_saying {α : Type} (say : α → List ω) (xs : List α) (first i : Nat) :
    ((xs.zipIdx first).flatMap fun p => ((say p.1).map (p.2, ·)).filterMap (saying (first + i))) =
      (xs[i]?.map say).getD [] := by
  have hone : ∀ (x : α) (j k : Nat), ((say x).map (j, ·)).filterMap (saying k) =
      if j = k then say x else [] := by
    intro x j k
    rw [List.filterMap_map]
    by_cases hj : j = k
    · have hall : saying k ∘ (fun s : ω => (j, s)) = some := funext fun _ => if_pos hj
      rw [hall, List.filterMap_some, if_pos hj]
    · rw [if_neg hj]
      exact List.filterMap_eq_nil_iff.mpr fun _ _ => if_neg hj
  simp only [hone]
  induction xs generalizing first i with
  | nil => rfl
  | cons x xs ih =>
    rw [List.zipIdx_cons, List.flatMap_cons]
    cases i with
    | zero =>
      have hrest : ((xs.zipIdx (first + 1)).flatMap fun p =>
          if p.2 = first then say p.1 else []) = [] := by
        refine List.flatMap_eq_nil_iff.mpr fun p hp => if_neg ?_
        have hlater := List.le_snd_of_mem_zipIdx hp
        omega
      rw [Nat.add_zero, hrest, if_pos rfl, List.append_nil]
      rfl
    | succ i =>
      have hnext : first + (i + 1) = first + 1 + i := by omega
      rw [hnext, ih, if_neg (by omega)]
      rfl

/-- Of what numbered hooks say, the words of one of them. -/
theorem filterMap_numbered (say : Hook ω → List ω) {say' : Hook (Nat × ω) → List (Nat × ω)}
    (hsay : ∀ g i, say' (g.map (i, ·)) = (say g).map (i, ·)) {hooks : List (Hook ω)} {i : Nat}
    {g : Hook ω} (hg : hooks[i]? = some g) :
    ((numbered hooks).flatMap say').filterMap (saying i) = say g := by
  have hfind := flatMap_saying say hooks 0 i
  rw [Nat.zero_add, hg] at hfind
  simp only [numbered, List.flatMap_map, List.filterMap_flatMap, hsay, hfind]
  rfl

/-- What numbered hooks say has their numbers. -/
theorem lt_length_of_mem_numbered (say : Hook ω → List ω)
    {say' : Hook (Nat × ω) → List (Nat × ω)}
    (hsay : ∀ g i, say' (g.map (i, ·)) = (say g).map (i, ·)) {hooks : List (Hook ω)}
    {p : Nat × ω} (hp : p ∈ (numbered hooks).flatMap say') : p.1 < hooks.length := by
  obtain ⟨_, hg, hp⟩ := List.mem_flatMap.mp hp
  obtain ⟨⟨g, i⟩, hmem, rfl⟩ := List.mem_map.mp hg
  rw [hsay] at hp
  obtain ⟨s, -, rfl⟩ := List.mem_map.mp hp
  exact List.snd_lt_of_mem_zipIdx hmem

end Hook

namespace Machine

open Hook

theorem runFrom_map (f : ω → κ) (hooks : List (Hook ω)) (n t : Nat) (m : Machine)
    (said : List ω) :
    runFrom (hooks.map (Hook.map f)) n t m (said.map f) =
      ((runFrom hooks n t m said).1, (runFrom hooks n t m said).2.map f) := by
  induction n generalizing t m said with
  | zero => rfl
  | succ n ih =>
    have hafter : afterAll (hooks.map (Hook.map f)) t m.step.1 m.step.2 =
        ((afterAll hooks t m.step.1 m.step.2).1,
          (afterAll hooks t m.step.1 m.step.2).2.map f) :=
      inTurn_map (fun _ _ => rfl) hooks m.step.2
    simp only [runFrom, hafter, ← List.map_reverse, ← List.map_append, ih]
    split <;> rfl

/-- Hooks whose words go through `f` make the same run. -/
theorem run_map (f : ω → κ) (hooks : List (Hook ω)) (budget : Option Nat) (m : Machine) :
    m.run (hooks.map (Hook.map f)) budget =
      ⟨(m.run hooks budget).final, (m.run hooks budget).output.map f⟩ := by
  have hstart : startAll (hooks.map (Hook.map f)) m =
      ((startAll hooks m).1, (startAll hooks m).2.map f) := inTurn_map (fun _ _ => rfl) hooks m
  simp only [run, hstart, ← List.map_reverse, runFrom_map]

/-- What is said in a run, each word with the number of the hook that says it. -/
def transcript (hooks : List (Hook ω)) (budget : Option Nat) (m : Machine) : List (Nat × ω) :=
  (m.run (numbered hooks) budget).output

/-- What hook number `i` says in a run, from the first word to the last. -/
def saidBy (hooks : List (Hook ω)) (i : Nat) (budget : Option Nat) (m : Machine) : List ω :=
  (m.transcript hooks budget).filterMap (saying i)

/-- The numbers are all that a transcript adds. -/
theorem map_snd_transcript (hooks : List (Hook ω)) (budget : Option Nat) (m : Machine) :
    (m.transcript hooks budget).map Prod.snd = (m.run hooks budget).output := by
  have h := run_map Prod.snd (numbered hooks) budget m
  rw [map_snd_numbered] at h
  exact (congrArg Run.output h).symm

/-- Nobody else speaks in a run. -/
theorem lt_length_of_mem_transcript {hooks : List (Hook ω)} (h : ∀ g ∈ hooks, g.Observes)
    {m : Machine} (hm : m.exit = none) (budget : Option Nat) {p : Nat × ω}
    (hp : p ∈ m.transcript hooks budget) : p.1 < hooks.length := by
  rw [transcript, run_of_observes (observes_of_mem_numbered h) hm, List.mem_append] at hp
  rcases hp with hp | hp
  · exact lt_length_of_mem_numbered (fun g => (g.start m).2) (fun _ _ => rfl) hp
  · obtain ⟨k, -, hp⟩ := List.mem_flatMap.mp hp
    exact lt_length_of_mem_numbered (fun g => (g.after k (m.eventAt k) (m.steps (k + 1))).2)
      (fun _ _ => rfl) hp

/-- An observer speaks before the first step and after each one. -/
theorem saidBy_of_observes {hooks : List (Hook ω)} (h : ∀ g ∈ hooks, g.Observes) {m : Machine}
    (hm : m.exit = none) (budget : Option Nat) {i : Nat} {g : Hook ω} (hg : hooks[i]? = some g) :
    m.saidBy hooks i budget = (g.start m).2 ++ (List.range (m.duration budget)).flatMap fun k =>
      (g.after k (m.eventAt k) (m.steps (k + 1))).2 := by
  have hstart : ((numbered hooks).flatMap fun g' => (g'.start m).2).filterMap (saying i) =
      (g.start m).2 := filterMap_numbered (fun g' => (g'.start m).2) (fun _ _ => rfl) hg
  have hafter : ∀ k, ((numbered hooks).flatMap fun g' =>
      (g'.after k (m.eventAt k) (m.steps (k + 1))).2).filterMap (saying i) =
        (g.after k (m.eventAt k) (m.steps (k + 1))).2 := fun k =>
    filterMap_numbered (fun g' => (g'.after k (m.eventAt k) (m.steps (k + 1))).2)
      (fun _ _ => rfl) hg
  rw [saidBy, transcript, run_of_observes (observes_of_mem_numbered h) hm, List.filterMap_append,
    hstart, List.filterMap_flatMap]
  simp only [hafter]

end Machine
end SC32
