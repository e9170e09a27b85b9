import Mathlib.Data.List.Pairwise
import SC32.Proofs.Assembly.Placement

/-!
# Which fault is reported

Assembly that fails reports one line. If some label is defined twice, that is the first line whose
label an earlier line has defined, whatever else is wrong with the text; otherwise it is the first
line that has no word once all labels are known. Main statements: what each pass reports, and what
assembly reports.
-/
namespace SC32.Assembly

/-- Line number `i` begins with label `l`: its first token, which stands for no operation. -/
def Labels (source : List String) (i : Nat) (l : String) : Prop :=
  ∃ raw, source[i]? = some raw ∧ (Text.tokens raw).head? = some l ∧ isOperation l = false

/-- Of the lines before number `i`, no two begin with the same label. -/
def DistinctBefore (source : List String) (i : Nat) : Prop :=
  ∀ j < i, ∀ k < j, ∀ l, Labels source j l → ¬ Labels source k l

/-- Line number `i` begins with label `l` again, and before it only line number `prev` does. -/
structure Redefines (source : List String) (i prev : Nat) (l : String) : Prop where
  again : Labels source i l
  earlier : prev < i
  first : Labels source prev l
  only : ∀ j < i, Labels source j l → j = prev

/-- At its address, line number `i` has the fault `e` for a word. -/
def Fails (source : List String) (t : SymbolTable) (i : Nat) (e : Fault) : Prop :=
  ∃ l, LineAt source i l ∧ l.word t (addressOf source i) = .error e

/-- The fault that is to be reported for line number `i`. -/
inductive FirstFault (source : List String) (i : Nat) : Fault → Prop where
  /-- The label of the line is defined already; no line before it has such a label. -/
  | redefined {prev : Nat} {l : String} (h : Redefines source i prev l)
    (least : DistinctBefore source i) : FirstFault source i (.duplicateLabel l prev)
  /-- All labels are distinct and in the table; all lines before it have a word. -/
  | own {t : SymbolTable} {e : Fault} (distinct : DistinctBefore source source.length)
    (table : Agrees t source) (h : Fails source t i e)
    (least : ∀ j < i, ∀ e', ¬ Fails source t j e') : FirstFault source i e

variable {source : List String}

theorem exists_parse?_label_iff (raw l : String) :
    (∃ line, Line.parse? raw = some line ∧ line.label = some l) ↔
      (Text.tokens raw).head? = some l ∧ isOperation l = false := by
  unfold Line.parse?
  cases Text.tokens raw with
  | nil => simp [Line.ofTokens?]
  | cons head rest =>
    rw [List.head?_cons, Option.some.injEq]
    cases h : isOperation head with
    | true =>
      have hne : head = l → isOperation l = true := fun hl => hl ▸ h
      simpa [Line.ofTokens?, h] using hne
    | false =>
      have hne : head = l → isOperation l = false := fun hl => hl ▸ h
      simpa [Line.ofTokens?, h] using hne

theorem labels_iff (source : List String) (i : Nat) (l : String) :
    Labels source i l ↔ ∃ line, LineAt source i line ∧ line.label = some l := by
  simp only [Labels, ← exists_parse?_label_iff]
  constructor
  · rintro ⟨raw, hraw, line, hline, hl⟩
    exact ⟨line, ⟨raw, hraw, hline⟩, hl⟩
  · rintro ⟨line, ⟨raw, hraw, hline⟩, hl⟩
    exact ⟨raw, hraw, line, hline, hl⟩

theorem labels_iff_place (source : List String) (i : Nat) (l : String) :
    Labels source i l ↔ ∃ p ∈ place source, p.line = i ∧ p.content.label = some l := by
  rw [labels_iff]
  constructor
  · rintro ⟨line, hline, hl⟩
    exact ⟨⟨i, addressOf source i, line⟩, (mem_place_iff source _).mpr ⟨hline, rfl⟩, rfl, hl⟩
  · rintro ⟨p, hp, rfl, hl⟩
    exact ⟨p.content, ((mem_place_iff source p).mp hp).1, hl⟩

/-! ### The first pass -/

theorem define_eq_error_iff (t : SymbolTable) (p : Placed) (f : LineFault) :
    define t p = .error f ↔ ∃ l d, p.content.label = some l ∧ t.find? l = some d ∧
      f = ⟨p.line, .duplicateLabel l d.line⟩ := by
  unfold define
  cases p.content.label with
  | none => simp
  | some l => cases h : t.find? l <;> simp [h, eq_comm]

/-- The lines before number `n` are entered when their labels are distinct. -/
theorem exists_define_iff {ps : List Placed} {n : Nat} (hsorted : ps.Pairwise (·.line < ·.line))
    (hmem : ∀ q, q ∈ ps ↔ q ∈ place source ∧ q.line < n) :
    (∃ t, ps.foldlM define .empty = .ok t) ↔ DistinctBefore source n := by
  rw [exists_foldlM_define_iff]
  constructor
  · rintro ⟨-, hpw⟩ j hj k hk l hjl hkl
    obtain ⟨q, hq, rfl, hql⟩ := (labels_iff_place source j l).mp hjl
    obtain ⟨r, hr, rfl, hrl⟩ := (labels_iff_place source k l).mp hkl
    have hne : r ≠ q := by
      rintro rfl
      exact Nat.lt_irrefl _ hk
    have hsymm : Std.Symm fun x y : Placed =>
        ∀ m, x.content.label = some m → y.content.label ≠ some m :=
      ⟨fun _ _ hxy m hy hx => hxy m hx hy⟩
    exact hpw.forall ((hmem r).mpr ⟨hr, Nat.lt_trans hk hj⟩) ((hmem q).mpr ⟨hq, hj⟩) hne l hrl hql
  · intro hdistinct
    refine ⟨fun q _ l _ => SymbolTable.find?_empty l, hsorted.imp_of_mem ?_⟩
    intro q r hq hr hlt l hql hrl
    obtain ⟨hq, -⟩ := (hmem q).mp hq
    obtain ⟨hr, hrn⟩ := (hmem r).mp hr
    exact hdistinct r.line hrn q.line hlt l ((labels_iff_place source _ l).mpr ⟨r, hr, rfl, hrl⟩)
      ((labels_iff_place source _ l).mpr ⟨q, hq, rfl, hql⟩)

theorem exists_define_before_iff {before behind : List Placed} {p : Placed}
    (h : place source = before ++ p :: behind) :
    (∃ t, before.foldlM define .empty = .ok t) ↔ DistinctBefore source p.line := by
  have hsorted := pairwise_place source
  rw [h, List.pairwise_append] at hsorted
  exact exists_define_iff hsorted.1 (mem_before_iff h)

/-- There is a table when no label is defined twice. -/
theorem exists_table_iff (source : List String) :
    (∃ t, collect source = .ok t) ↔ DistinctBefore source source.length := by
  refine exists_define_iff (pairwise_place source) ?_
  intro q
  constructor
  · intro hq
    exact ⟨hq, ((mem_place_iff source q).mp hq).1.lt_length⟩
  · exact And.left

/-- Where the lines before are entered, a label is in the table under the line that begins with
it. -/
theorem find?_before {before behind : List Placed} {p : Placed} {t : SymbolTable}
    (h : place source = before ++ p :: behind) (ht : before.foldlM define .empty = .ok t)
    (l : String) (n : Nat) :
    (∃ d, t.find? l = some d ∧ d.line = n) ↔ n < p.line ∧ Labels source n l := by
  have hfind := find?_of_foldlM_define ht l
  simp only [SymbolTable.find?_empty, reduceCtorEq, false_or] at hfind
  simp only [hfind, labels_iff_place, mem_before_iff h]
  constructor
  · rintro ⟨_, ⟨q, ⟨hq, hlt⟩, hl, rfl⟩, rfl⟩
    exact ⟨hlt, q, hq, rfl, hl⟩
  · rintro ⟨hlt, q, hq, rfl, hl⟩
    exact ⟨_, ⟨q, ⟨hq, hlt⟩, hl, rfl⟩, rfl⟩

/-- Only one line of several with distinct labels begins with a given one. -/
theorem DistinctBefore.eq {i j k : Nat} {l : String} (h : DistinctBefore source i) (hj : j < i)
    (hk : k < i) (hjl : Labels source j l) (hkl : Labels source k l) : j = k := by
  rcases Nat.lt_trichotomy j k with hjk | rfl | hkj
  · exact absurd hjl (h k hk j hjk l hkl)
  · rfl
  · exact absurd hkl (h j hj k hkj l hjl)

/-- The first pass reports the first line that begins with the label of an earlier line. -/
theorem collect_eq_error_iff (source : List String) (i : Nat) (e : Fault) :
    collect source = .error ⟨i, e⟩ ↔
      ∃ prev l, e = .duplicateLabel l prev ∧ Redefines source i prev l ∧
        DistinctBefore source i := by
  rw [collect, foldlM_eq_error_iff]
  simp only [define_eq_error_iff]
  constructor
  · rintro ⟨before, p, behind, t, h, ht, l, d, hl, hd, hf⟩
    obtain ⟨rfl, rfl⟩ := LineFault.mk.inj hf
    have hdistinct := (exists_define_before_iff h).mp ⟨t, ht⟩
    have hp : p ∈ place source := h ▸ List.mem_append_right _ List.mem_cons_self
    obtain ⟨hlt, hfirst⟩ := (find?_before h ht l d.line).mp ⟨d, hd, rfl⟩
    exact ⟨d.line, l, rfl,
      ⟨(labels_iff_place source _ l).mpr ⟨p, hp, rfl, hl⟩, hlt, hfirst,
        fun j hj hjl => hdistinct.eq hj hlt hjl hfirst⟩, hdistinct⟩
  · rintro ⟨prev, l, rfl, h, hdistinct⟩
    obtain ⟨p, hp, rfl, hl⟩ := (labels_iff_place source i l).mp h.again
    obtain ⟨before, behind, hsplit⟩ := List.append_of_mem hp
    obtain ⟨t, ht⟩ := (exists_define_before_iff hsplit).mpr hdistinct
    obtain ⟨d, hd, rfl⟩ := (find?_before hsplit ht l prev).mpr ⟨h.earlier, h.first⟩
    exact ⟨before, p, behind, t, hsplit, ht, l, d, hl, hd, rfl⟩

/-! ### The second pass -/

theorem placed_word_eq_error_iff (t : SymbolTable) (p : Placed) (i : Nat) (e : Fault) :
    p.word t = .error ⟨i, e⟩ ↔ p.line = i ∧ p.content.word t p.address = .error e := by
  rw [Placed.word, mapError_eq_error_iff]
  constructor
  · rintro ⟨_, he, hf⟩
    obtain ⟨hi, rfl⟩ := LineFault.mk.inj hf
    exact ⟨hi, he⟩
  · rintro ⟨rfl, he⟩
    exact ⟨e, he, rfl⟩

/-- A line that is not blank has a word or a fault. -/
theorem not_fails_iff (source : List String) (t : SymbolTable) (j : Nat) :
    (∀ e, ¬ Fails source t j e) ↔
      ∀ l, LineAt source j l → ∃ w, l.word t (addressOf source j) = .ok w := by
  constructor
  · intro h l hl
    cases hw : l.word t (addressOf source j) with
    | ok w => exact ⟨w, rfl⟩
    | error e => exact absurd ⟨l, hl, hw⟩ (h e)
  · rintro h e ⟨l, hl, he⟩
    obtain ⟨w, hw⟩ := h l hl
    rw [hw] at he
    cases he

/-- The second pass reports the first line that has no word. -/
theorem emit_eq_error_iff (t : SymbolTable) (source : List String) (i : Nat) (e : Fault) :
    emit t source = .error ⟨i, e⟩ ↔
      Fails source t i e ∧ ∀ j < i, ∀ e', ¬ Fails source t j e' := by
  simp only [emit, mapM_eq_error_iff, placed_word_eq_error_iff, not_fails_iff,
    placed_word_eq_ok_iff, ← bind_eq_ok_iff]
  constructor
  · rintro ⟨before, p, behind, h, hbefore, rfl, he⟩
    have hp : p ∈ place source := h ▸ List.mem_append_right _ List.mem_cons_self
    obtain ⟨hline, haddress⟩ := (mem_place_iff source p).mp hp
    rw [haddress] at he
    refine ⟨⟨p.content, hline, he⟩, ?_⟩
    intro j hj l hl
    have hq := (mem_place_iff source ⟨j, addressOf source j, l⟩).mpr ⟨hl, rfl⟩
    exact hbefore _ ((mem_before_iff h _).mpr ⟨hq, hj⟩)
  · rintro ⟨⟨l, hl, he⟩, hleast⟩
    have hp := (mem_place_iff source ⟨i, addressOf source i, l⟩).mpr ⟨hl, rfl⟩
    obtain ⟨before, behind, h⟩ := List.append_of_mem hp
    refine ⟨before, _, behind, h, ?_, rfl, he⟩
    intro q hq
    obtain ⟨hq, hlt⟩ := (mem_before_iff h q).mp hq
    obtain ⟨hline, haddress⟩ := (mem_place_iff source q).mp hq
    rw [haddress]
    exact hleast q.line hlt q.content hline

/-! ### Both passes -/

/-- What is wrong with a line depends on the labels of the text, not on how a table has them. -/
theorem fails_congr {t t' : SymbolTable} (h : Agrees t source) (h' : Agrees t' source) (i : Nat)
    (e : Fault) : Fails source t' i e ↔ Fails source t i e := by
  have hword : ∀ (a : Nat) (l : Line), l.word t' a = l.word t a := by
    intro a l
    unfold Line.word
    cases l.statement with
    | error e' => rfl
    | ok s => exact word_congr a fun x _ => target_congr (h.address?_eq h' x)
  simp only [Fails, hword]

theorem assemble_eq_error_iff (source : List String) (i : Nat) (e : Fault) :
    assemble source = .error ⟨i, e⟩ ↔ FirstFault source i e := by
  rw [assemble, bind_eq_error_iff]
  constructor
  · rintro (h | ⟨t, ht, h⟩)
    · obtain ⟨prev, l, rfl, hagain, hdistinct⟩ := (collect_eq_error_iff source i e).mp h
      exact .redefined hagain hdistinct
    · obtain ⟨hfails, hleast⟩ := (emit_eq_error_iff t source i e).mp h
      exact .own ((exists_table_iff source).mp ⟨t, ht⟩) (agrees_of_collect ht) hfails hleast
  · intro h
    cases h with
    | redefined h hdistinct =>
      exact .inl ((collect_eq_error_iff source i _).mpr ⟨_, _, rfl, h, hdistinct⟩)
    | @own t _ hdistinct htable h hleast =>
      obtain ⟨t', ht'⟩ := (exists_table_iff source).mpr hdistinct
      have hcongr := fails_congr htable (agrees_of_collect ht')
      simp only [← hcongr] at h hleast
      exact .inr ⟨t', ht', (emit_eq_error_iff t' source i e).mpr ⟨h, hleast⟩⟩

/-- The line with the fault is a line of the text and is not blank. -/
theorem FirstFault.exists_lineAt {i : Nat} {e : Fault} (h : FirstFault source i e) :
    ∃ l, LineAt source i l := by
  cases h with
  | redefined h =>
    obtain ⟨l, hl, -⟩ := (labels_iff source i _).mp h.again
    exact ⟨l, hl⟩
  | own _ _ h =>
    obtain ⟨l, hl, -⟩ := h
    exact ⟨l, hl⟩

/-- Assembly fails with the first fault of the text, and only with that one. -/
theorem first_fault_exact (source : List String) (i : Nat) (e : Fault) :
    assemble source = .error ⟨i, e⟩ ↔
      i < source.length ∧ (∃ l, LineAt source i l) ∧ FirstFault source i e := by
  rw [assemble_eq_error_iff]
  constructor
  · intro h
    obtain ⟨l, hl⟩ := h.exists_lineAt
    exact ⟨hl.lt_length, ⟨l, hl⟩, h⟩
  · rintro ⟨-, -, h⟩
    exact h

/-- A label that is defined again is reported before an earlier line that is no statement. -/
example : assemble ["a noop", "mul 1 2", "", "a halt", "a noop"] =
    .error ⟨3, .duplicateLabel "a" 0⟩ := rfl

end SC32.Assembly
