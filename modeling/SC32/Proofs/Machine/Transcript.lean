import SC32.Proofs.Machine.Attribution
import SC32.Proofs.Machine.SnapshotRows

/-!
# What a run prints

A run under a state report and a watch list. The full report has a snapshot of the machine before the
first step and one behind every fetched word; its messages are those of the brief report, which has
no snapshot. The watch list shows rows behind the steps that carry out an instruction at a watched
address. Main statements: what the report says of steps in a row, what the watch list says of them,
and that this is all that is printed.
-/
namespace SC32

/-- The event has a message. -/
inductive Event.Remarkable : Event → Prop where
  | halted (a : Nat) : Remarkable (.executed a .halt)
  | outOfBounds (a : Nat) (k : Access) (n : Int) : Remarkable (.outOfBounds a k n)
  | unknownOpcode (a : Nat) (w : Word) : Remarkable (.unknownOpcode a w)
  | pcOutOfBounds (pc : Word) : Remarkable (.pcOutOfBounds pc)

theorem Event.isSome_message?_iff (e : Event) (time : Nat) :
    (e.message? time).isSome = true ↔ e.Remarkable := by
  cases e with
  | executed a i =>
    cases i with
    | halt => exact ⟨fun _ => .halted a, fun _ => rfl⟩
    | _ => exact ⟨nofun, nofun⟩
  | outOfBounds a k n => exact ⟨fun _ => .outOfBounds a k n, fun _ => rfl⟩
  | unknownOpcode a w => exact ⟨fun _ => .unknownOpcode a w, fun _ => rfl⟩
  | pcOutOfBounds pc => exact ⟨fun _ => .pcOutOfBounds pc, fun _ => rfl⟩

namespace Report

/-- The text begins like a snapshot. -/
def isSnapshot (s : String) : Bool := "@@@\n".toList.isPrefixOf s.toList

theorem isSnapshot_append {s : String} (h : isSnapshot s = true) (t : String) :
    isSnapshot (s ++ t) = true := by
  rw [isSnapshot, List.isPrefixOf_iff_prefix] at h ⊢
  rw [String.toList_append]
  exact h.trans (List.prefix_append _ _)

theorem isSnapshot_snapshot (m : Machine) : isSnapshot m.snapshot = true := by
  have hopening : isSnapshot "@@@\nstate:\n\tpc " = true := by decide
  unfold Machine.snapshot
  simp only [String.append_assoc]
  exact isSnapshot_append hopening _

/-- What begins with a colour is no snapshot. -/
theorem isSnapshot_bold (c : Text.Colour) (s t : String) :
    isSnapshot (Text.bold c s ++ t) = false := by
  simp only [isSnapshot, Text.bold, Text.Colour.on, Text.rendition, String.append_assoc,
    String.toList_append]
  rfl

theorem isSnapshot_of_message? {e : Event} {time : Nat} {s : String}
    (h : e.message? time = some s) : isSnapshot s = false := by
  have hwarning : ∀ t, isSnapshot (warning t) = false := by
    intro t
    simp only [warning, String.append_assoc, isSnapshot_bold]
  cases e with
  | executed a i =>
    cases i with
    | halt =>
      cases h
      exact isSnapshot_bold _ _ _
    | _ => cases h
  | outOfBounds a k n | unknownOpcode a w =>
    cases h
    exact hwarning _
  | pcOutOfBounds pc =>
    cases h
    simp only [String.append_assoc, isSnapshot_bold]

/-! ### One step -/

variable (e : Event) (time : Nat) (m : Machine)

theorem each_brief : each false time e m = (e.message? time).toList := List.append_nil _

theorem isSnapshot_of_mem {s : String} (h : s ∈ (e.message? time).toList) :
    isSnapshot s = false := isSnapshot_of_message? (Option.mem_toList.mp h)

/-- The snapshots after a step. -/
theorem filter_each : (each true time e m).filter isSnapshot =
    if e.fetched then [m.snapshot] else [] := by
  have hmessage : (e.message? time).toList.filter isSnapshot = [] := by
    refine List.filter_eq_nil_iff.mpr fun s hs => ?_
    simp [isSnapshot_of_mem e time hs]
  rw [each, List.filter_append, hmessage, List.nil_append, Bool.true_and]
  split
  · simp [isSnapshot_snapshot]
  · rfl

/-- All else after a step is what the brief report says. -/
theorem filter_not_each : (each true time e m).filter (! isSnapshot ·) = each false time e m := by
  have hmessage : (e.message? time).toList.filter (! isSnapshot ·) = (e.message? time).toList := by
    refine List.filter_eq_self.mpr fun s hs => ?_
    simp [isSnapshot_of_mem e time hs]
  rw [each, List.filter_append, hmessage, each, Bool.true_and]
  congr 1
  cases e.fetched with
  | true => simp [isSnapshot_snapshot]
  | false => rfl

end Report

namespace Machine

open Report

/-! ### The report of a run -/

/-- Every step of a run but the last fetches a word, so the fetched words are those of the first
steps. -/
theorem flatMap_fetched {m : Machine} {t g : Nat}
    (hg : (m.steps (m.stepsWithin t)).executed = m.executed + g) (f : Nat → String) :
    ((List.range (m.stepsWithin t)).flatMap fun k =>
      if (m.eventAt k).fetched then [f k] else []) = (List.range g).map f := by
  cases hn : m.stepsWithin t with
  | zero =>
    rw [hn, steps_zero] at hg
    obtain rfl : g = 0 := by omega
    rfl
  | succ k =>
    have hfirst : ((List.range k).flatMap fun j => if (m.eventAt j).fetched then [f j] else []) =
        (List.range k).map f := by
      rw [List.map_eq_flatMap]
      refine List.flatMap_congr fun j hj => ?_
      have hlt := List.mem_range.mp hj
      rw [if_pos (Event.fetched_of_exit?_eq_none (exit?_eventAt (t := t) (by omega)))]
    rw [hn, executed_stepsWithin m hn, Nat.add_assoc] at hg
    obtain rfl := Nat.add_left_cancel hg
    rw [List.range_succ, List.flatMap_append, hfirst, List.flatMap_singleton]
    cases (m.eventAt k).fetched with
    | true => exact (List.range_succ ▸ List.map_append).symm
    | false => exact List.append_nil _

/-- Each word that is fetched is counted by the step of its number. -/
theorem executed_of_le {m : Machine} {t g j : Nat}
    (hg : (m.steps (m.stepsWithin t)).executed = m.executed + g) (hj : j ≤ g) :
    (m.steps j).executed = m.executed + j := by
  by_cases hlt : j < m.stepsWithin t
  · exact executed_steps_of_open fun i hi => exit?_eventAt (t := t) (by omega)
  · have hle := executed_steps_le m (m.stepsWithin t)
    obtain rfl : j = m.stepsWithin t := by omega
    omega

/-- What the report of a run of `n` steps from `m` says, in full and in brief. -/
structure Reports (m : Machine) (n : Nat) (full brief : List String) : Prop where
  /-- One snapshot for the machine that is run, and one for each word that is counted. -/
  count : m.executed + full.countP isSnapshot = (m.steps n).executed + 1
  snapshots : full.filter isSnapshot =
    (List.range (full.countP isSnapshot)).map fun j => (m.steps j).snapshot
  counted : ∀ j < full.countP isSnapshot, (m.steps j).executed = m.executed + j
  /-- The words in a snapshot are in memory. -/
  covered : ∀ j, (m.steps j).loaded ≤ (m.steps j).capacity
  /-- A snapshot has the rows of the machine that it is of. -/
  shown : ∀ j, ∃ r : SnapshotRows, (m.steps j).snapshot = r.text ∧ r.Show (m.steps j)
  rest : full.filter (! isSnapshot ·) = brief
  unseen : ∀ s ∈ brief, isSnapshot s = false
  messages : brief = (List.range n).filterMap fun k => (m.eventAt k).message? k
  remarkable : ∀ k, ((m.eventAt k).message? k).isSome = true ↔ (m.eventAt k).Remarkable
  left : ∀ k, (m.eventAt k).fetched = false ↔ ∃ pc, m.eventAt k = .pcOutOfBounds pc
  /-- A message is followed by the snapshot of its step, if a word was fetched. -/
  layout : full = m.snapshot :: (List.range n).flatMap fun k =>
    ((m.eventAt k).message? k).toList ++
      if (m.eventAt k).fetched then [(m.steps (k + 1)).snapshot] else []

/-- What the report says of `n` steps. -/
def reported (m : Machine) (verbose : Bool) (n : Nat) : List String :=
  opening verbose m ++ (List.range n).flatMap fun k =>
    each verbose k (m.eventAt k) (m.steps (k + 1))

theorem filter_reported {m : Machine} {t g : Nat}
    (hg : (m.steps (m.stepsWithin t)).executed = m.executed + g) :
    (m.reported true (m.stepsWithin t)).filter isSnapshot =
      (List.range (g + 1)).map fun j => (m.steps j).snapshot := by
  have hfirst : (opening true m).filter isSnapshot = [m.snapshot] := by
    simp [opening, isSnapshot_snapshot]
  rw [reported, List.filter_append, List.filter_flatMap, hfirst]
  simp only [filter_each]
  rw [flatMap_fetched hg, List.range_succ_eq_map, List.map_cons, List.map_map]
  rfl

theorem reported_false (m : Machine) (n : Nat) :
    m.reported false n = (List.range n).filterMap fun k => (m.eventAt k).message? k := by
  simp only [reported, each_brief, List.filterMap_eq_flatMap_toList]
  rfl

theorem filter_not_reported (m : Machine) (n : Nat) :
    (m.reported true n).filter (! isSnapshot ·) = m.reported false n := by
  have hfirst : (opening true m).filter (! isSnapshot ·) = opening false m := by
    simp [opening, isSnapshot_snapshot]
  simp only [reported, List.filter_append, List.filter_flatMap, filter_not_each, hfirst]

theorem reports_reported {m : Machine} (hloaded : m.loaded ≤ m.capacity) (t : Nat) :
    m.Reports (m.stepsWithin t) (m.reported true (m.stepsWithin t))
      (m.reported false (m.stepsWithin t)) := by
  have hg := executed_steps m (m.stepsWithin t)
  have hsnapshots := filter_reported hg
  have hcount : (m.reported true (m.stepsWithin t)).countP isSnapshot =
      (m.events (m.stepsWithin t)).countP Event.fetched + 1 := by
    rw [List.countP_eq_length_filter, hsnapshots, List.length_map, List.length_range]
  have hcovered : ∀ j, (m.steps j).loaded ≤ (m.steps j).capacity := by
    intro j
    rw [loaded_steps, capacity_steps]
    exact hloaded
  constructor
  case count => omega
  case snapshots => rw [hsnapshots, hcount]
  case counted =>
    intro j hj
    exact executed_of_le hg (by omega)
  case covered => exact hcovered
  case shown => exact fun j => exists_snapshotRows (hcovered j)
  case rest => exact filter_not_reported m _
  case unseen =>
    intro s hs
    rw [← filter_not_reported, List.mem_filter] at hs
    simpa using hs.2
  case messages => exact reported_false m _
  case remarkable => exact fun k => (m.eventAt k).isSome_message?_iff k
  case left => exact fun k => (m.eventAt k).fetched_eq_false_iff
  case layout =>
    rw [reported]
    rfl

/-! ### The rows of a run -/

/-- What a watch list shows of a run of `n` steps from `m`, in the rows behind each step. -/
structure Watches (m : Machine) (n : Nat) (l : WatchList) (rows : Nat → List String) : Prop where
  /-- There are rows where an instruction was carried out at a watched address. -/
  present : ∀ k < n, rows k ≠ [] ↔ ∃ a i w, m.eventAt k = .executed a i ∧ l.find? a = some w
  legible : ∀ k < n, ∀ a i w, m.eventAt k = .executed a i → l.find? a = some w →
    ∀ xs, List.Forall₂ Watch.Says (rows k) xs ↔ xs = w.shown a (m.steps (k + 1))

/-- The rows behind a step. -/
def rowsAfter (m : Machine) (l : WatchList) (k : Nat) : List String :=
  (l.each? (m.eventAt k) (m.steps (k + 1))).getD []

theorem rowsAfter_of_executed {m : Machine} {l : WatchList} {k a : Nat} {i : Instruction Offset}
    {w : Watch} (he : m.eventAt k = .executed a i) (hw : l.find? a = some w) :
    m.rowsAfter l k = w.rows a (m.steps (k + 1)) := by
  rw [rowsAfter, he, WatchList.each?, WatchList.rows?, hw]
  rfl

theorem watches_rowsAfter (m : Machine) (n : Nat) (l : WatchList) :
    m.Watches n l (m.rowsAfter l) := by
  constructor
  case present =>
    intro k _
    constructor
    · intro h
      unfold rowsAfter at h
      cases he : m.eventAt k with
      | executed a i =>
        cases hw : l.find? a with
        | some w => exact ⟨a, i, w, rfl, hw⟩
        | none => simp [he, WatchList.each?, WatchList.rows?, hw] at h
      | outOfBounds | unknownOpcode | pcOutOfBounds => simp [he, WatchList.each?] at h
    · rintro ⟨a, i, w, he, hw⟩
      rw [rowsAfter_of_executed he hw]
      exact List.cons_ne_nil _ _
  case legible =>
    intro k _ a i w he hw xs
    rw [rowsAfter_of_executed he hw]
    exact w.forall₂_says_rows_iff a _ xs

/-! ### Both together -/

/-- The state report, with a watch list behind it. -/
def reportAndWatch (verbose : Bool) (l : WatchList) (opening : List String) : List (Hook String) :=
  [Report.hook verbose, l.hook opening]

theorem observes_of_mem_reportAndWatch (verbose : Bool) (l : WatchList) (opening : List String) :
    ∀ g ∈ reportAndWatch verbose l opening, g.Observes := by
  have hwatch := (Observer.watch l opening).observes
  exact List.forall_mem_cons.mpr
    ⟨(Observer.report verbose).observes, List.forall_mem_singleton.mpr hwatch⟩

/-- A run under a state report and a watch list, of a machine that has not terminated and holds the
words that were loaded. Only the two speak in it, and numbers that tell their words apart change
neither the words nor the run. The full report has the snapshots of the machine that is run and of
those that its counted steps lead to; its messages are all that is in the brief report, one for each
step out of the ordinary, and each stands in front of the snapshot of its step. The watch list shows
rows behind the steps at watched addresses and no others, for the machine that the step leads to,
whichever report there is. -/
theorem transcript_exact (m : Machine) (hm : m.terminated = false) (hloaded : m.loaded ≤ m.capacity)
    (budget : Option Nat) (l : WatchList) (opening : List String) :
    (∀ verbose,
      (m.transcript (reportAndWatch verbose l opening) budget).map Prod.snd =
        (m.run (reportAndWatch verbose l opening) budget).output ∧
      (∀ p ∈ m.transcript (reportAndWatch verbose l opening) budget, p.1 = 0 ∨ p.1 = 1) ∧
      (m.run (reportAndWatch verbose l opening) budget).final = m.steps (m.duration budget)) ∧
    m.Reports (m.duration budget) (m.saidBy (reportAndWatch true l opening) 0 budget)
      (m.saidBy (reportAndWatch false l opening) 0 budget) ∧
    ∃ rows, m.Watches (m.duration budget) l rows ∧
      ∀ verbose, m.saidBy (reportAndWatch verbose l opening) 1 budget =
        opening.map (· ++ "\n") ++ (List.range (m.duration budget)).flatMap fun k =>
          (rows k).map (· ++ "\n") := by
  rw [terminated_eq_false_iff] at hm
  have hobs := fun verbose => observes_of_mem_reportAndWatch verbose l opening
  have hreport : ∀ verbose, m.saidBy (reportAndWatch verbose l opening) 0 budget =
      m.reported verbose (m.duration budget) := fun verbose =>
    saidBy_of_observes (g := Report.hook verbose) (hobs verbose) hm budget rfl
  refine ⟨?_, ?_, m.rowsAfter l, watches_rowsAfter m _ l, ?_⟩
  · intro verbose
    refine ⟨map_snd_transcript _ budget m, ?_, ?_⟩
    · intro p hp
      have hlt : p.1 < 2 := lt_length_of_mem_transcript (hobs verbose) hm budget hp
      omega
    · rw [run_of_observes (hobs verbose) hm]
  · rw [hreport, hreport]
    exact reports_reported hloaded _
  · exact fun verbose =>
      saidBy_of_observes (g := l.hook opening) (hobs verbose) hm budget rfl

/-- A load from outside memory, a word that is no instruction, a `noop` and a halt. -/
def mishaps : Machine := (blank 5).load [0x810064, 0xFFFFFFFF, 0x1C00000, 0x1800000]

/-- The `noop` is watched, with a cell that exists and one that does not. -/
def noopWatch : WatchList := WatchList.empty.insert 2 ⟨[⟨1, by decide⟩], [3, 5]⟩

theorem transcript_exact_mishaps :
    mishaps.terminated = false ∧ mishaps.loaded ≤ mishaps.capacity ∧
    (mishaps.saidBy (reportAndWatch true noopWatch []) 0 (some 9)).countP isSnapshot = 5 ∧
    (mishaps.saidBy (reportAndWatch false noopWatch []) 0 (some 9)).length = 3 ∧
    ∃ rows, mishaps.Watches 4 noopWatch rows ∧
      (∀ xs, List.Forall₂ Watch.Says (rows 2) xs ↔ xs =
        [.heading 2 3, .register 1 0, .cell 3 (some 0x1800000), .cell 5 none]) ∧
      mishaps.saidBy (reportAndWatch true noopWatch []) 1 (some 9) = (rows 2).map (· ++ "\n") := by
  have hloaded : mishaps.loaded ≤ mishaps.capacity := by decide
  obtain ⟨-, hreports, rows, hwatches, hrows⟩ :=
    transcript_exact mishaps rfl hloaded (some 9) noopWatch []
  have hn : mishaps.duration (some 9) = 4 := by decide +kernel
  rw [hn] at hreports hwatches hrows
  have hexecuted : (mishaps.steps 4).executed = 4 := by decide +kernel
  have hevents : mishaps.eventAt 0 = .outOfBounds 0 .load 100 ∧
      mishaps.eventAt 1 = .unknownOpcode 1 0xFFFFFFFF ∧
      mishaps.eventAt 2 = .executed 2 .noop ∧ mishaps.eventAt 3 = .executed 3 .halt := by
    decide +kernel
  have hkeys : noopWatch.find? 2 = some ⟨[1], [3, 5]⟩ ∧ noopWatch.find? 3 = none := by
    decide +kernel
  obtain ⟨h₀, h₁, h₂, h₃⟩ := hevents
  refine ⟨rfl, hloaded, ?_, ?_, rows, hwatches, ?_, ?_⟩
  · have hcount := hreports.count
    have hstart : mishaps.executed = 0 := rfl
    omega
  · rw [hreports.messages]
    decide +kernel
  · have hshown : (⟨[1], [3, 5]⟩ : Watch).shown 2 (mishaps.steps 3) =
        [.heading 2 3, .register 1 0, .cell 3 (some 0x1800000), .cell 5 none] := by
      decide +kernel
    rw [← hshown]
    exact hwatches.legible 2 (by decide) 2 _ _ h₂ hkeys.1
  · have hquiet : ∀ k < 4, (∀ a i w, mishaps.eventAt k = .executed a i →
        noopWatch.find? a ≠ some w) → rows k = [] := by
      intro k hk hnone
      refine Classical.not_not.mp fun h => ?_
      obtain ⟨a, i, w, he, hw⟩ := (hwatches.present k hk).mp h
      exact hnone a i w he hw
    have hrow₀ : rows 0 = [] := hquiet 0 (by decide) (by rw [h₀]; exact nofun)
    have hrow₁ : rows 1 = [] := hquiet 1 (by decide) (by rw [h₁]; exact nofun)
    have hrow₃ : rows 3 = [] := by
      refine hquiet 3 (by decide) ?_
      rw [h₃]
      rintro _ _ w ⟨⟩
      rw [hkeys.2]
      exact nofun
    have hfour : List.range 4 = [0, 1, 2, 3] := rfl
    rw [hrows true, hfour]
    simp [hrow₀, hrow₁, hrow₃]

end Machine
end SC32
