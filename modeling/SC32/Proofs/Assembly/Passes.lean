import SC32.Proofs.Assembly.Meaning

/-!
# The two passes

Both passes go over the same placed lines, so both give line number `a` of the lines that are not
blank the address `a`. The first pass succeeds when no label is defined twice, and its table then
binds exactly the labels of the text; the second writes down what each statement means.
-/
namespace SC32.Assembly

theorem map_snd_numbered (source : List String) :
    (numbered source).map Prod.snd = addressed source := by
  have h : source = source.zipIdx.map Prod.fst := by simp
  conv => rhs; rw [h, addressed, List.filterMap_map]
  rw [numbered, List.map_filterMap]
  congr 1
  funext x
  simp [Function.comp_def]

theorem getElem?_place (source : List String) (a : Nat) :
    (place source)[a]? = (numbered source)[a]?.map fun x => ⟨x.1, a, x.2⟩ := by
  simp [place, Function.comp_def]

theorem map_content_place (source : List String) :
    (place source).map Placed.content = addressed source := by
  rw [← map_snd_numbered]
  apply List.ext_getElem?
  intro a
  simp [getElem?_place, Function.comp_def]

theorem content_mem_addressed {source : List String} {p : Placed} (h : p ∈ place source) :
    p.content ∈ addressed source := by
  rw [← map_content_place]
  exact List.mem_map_of_mem h

/-- The address of a placed line is its number among the placed lines. -/
theorem address_of_getElem?_place {source : List String} {a : Nat} {p : Placed}
    (h : (place source)[a]? = some p) : p.address = a := by
  rw [getElem?_place] at h
  obtain ⟨x, -, rfl⟩ := Option.map_eq_some_iff.mp h
  rfl

theorem content_of_getElem?_place {source : List String} {a : Nat} {p : Placed}
    (h : (place source)[a]? = some p) : (addressed source)[a]? = some p.content := by
  rw [← map_content_place, List.getElem?_map, h]
  rfl

theorem exists_getElem?_place {source : List String} {a : Nat} {line : Line}
    (h : (addressed source)[a]? = some line) :
    ∃ p, (place source)[a]? = some p ∧ p.address = a ∧ p.content = line := by
  rw [← map_content_place, List.getElem?_map] at h
  obtain ⟨p, hp, hl⟩ := Option.map_eq_some_iff.mp h
  exact ⟨p, hp, address_of_getElem?_place hp, hl⟩

/-! ### The first pass -/

theorem define_eq_ok_iff (t t' : SymbolTable) (p : Placed) :
    define t p = .ok t' ↔
      (p.content.label = none ∧ t' = t) ∨
      (∃ l, p.content.label = some l ∧ t.find? l = none ∧ t' = t.insert l ⟨p.line, p.address⟩) := by
  unfold define
  cases hp : p.content.label with
  | none => simp [eq_comm]
  | some l =>
    cases ht : t.find? l with
    | none => simp [ht, eq_comm]
    | some d => simp [ht]

theorem find?_insert_eq_none_iff (t : SymbolTable) (l k : String) (d : Definition) :
    (t.insert l d).find? k = none ↔ k ≠ l ∧ t.find? k = none := by
  rw [SymbolTable.find?_insert]
  by_cases h : k = l <;> simp [h]

/-- A fold of definitions adds the labels of its lines and forgets nothing. -/
theorem find?_of_foldlM_define {ps : List Placed} {t t' : SymbolTable}
    (h : ps.foldlM define t = .ok t') (l : String) (d : Definition) :
    t'.find? l = some d ↔
      t.find? l = some d ∨ ∃ p ∈ ps, p.content.label = some l ∧ d = ⟨p.line, p.address⟩ := by
  induction ps generalizing t with
  | nil =>
    cases h
    simp
  | cons p ps ih =>
    rw [List.foldlM_cons] at h
    obtain ⟨t₁, h₁, h⟩ := (bind_eq_ok_iff _ _ _).mp h
    rw [ih h]
    rcases (define_eq_ok_iff t t₁ p).mp h₁ with ⟨hp, rfl⟩ | ⟨k, hp, hk, rfl⟩
    · simp [hp]
    · rw [SymbolTable.find?_insert]
      by_cases hl : l = k
      · subst hl
        simp [hp, hk, eq_comm]
      · simp [hp, hl, Ne.symm hl]

/-- Definitions succeed when each label is new, to the table and among the lines before it. -/
theorem exists_foldlM_define_iff (ps : List Placed) (t : SymbolTable) :
    (∃ t', ps.foldlM define t = .ok t') ↔
      (∀ p ∈ ps, ∀ l, p.content.label = some l → t.find? l = none) ∧
      ps.Pairwise fun p q => ∀ l, p.content.label = some l → q.content.label ≠ some l := by
  induction ps generalizing t with
  | nil => simp [pure, Except.pure]
  | cons p ps ih =>
    rw [List.foldlM_cons, List.forall_mem_cons, List.pairwise_cons]
    cases hp : p.content.label with
    | none =>
      have hd : define t p = .ok t := (define_eq_ok_iff t t p).mpr (.inl ⟨hp, rfl⟩)
      rw [hd]
      change (∃ t', ps.foldlM define t = .ok t') ↔ _
      rw [ih]
      simp
    | some l =>
      cases ht : t.find? l with
      | some d =>
        have hd : define t p = .error ⟨p.line, .duplicateLabel l d.line⟩ := by
          simp only [define, hp, ht]
        rw [hd]
        constructor
        · intro h'
          obtain ⟨t', h⟩ := h'
          cases h
        · intro h
          rw [h.1.1 l rfl] at ht
          cases ht
      | none =>
        have hd : define t p = .ok (t.insert l ⟨p.line, p.address⟩) :=
          (define_eq_ok_iff t _ p).mpr (.inr ⟨l, hp, ht, rfl⟩)
        rw [hd]
        change (∃ t', ps.foldlM define _ = .ok t') ↔ _
        rw [ih]
        simp only [find?_insert_eq_none_iff, Option.some.injEq]
        constructor
        · intro h'
          obtain ⟨hnew, hps⟩ := h'
          refine ⟨⟨?_, ?_⟩, ?_, hps⟩
          · rintro k rfl
            exact ht
          · intro q hq k hk
            exact (hnew q hq k hk).2
          · rintro q hq k rfl hk
            exact (hnew q hq l hk).1 rfl
        · intro h'
          obtain ⟨⟨-, hold⟩, hfirst, hps⟩ := h'
          refine ⟨?_, hps⟩
          intro q hq k hk
          refine ⟨?_, hold q hq k hk⟩
          rintro rfl
          exact hfirst q hq k rfl hk

/-- The table of a text: every label under its address, and nothing else. -/
theorem address?_of_collect {source : List String} {t : SymbolTable}
    (h : collect source = .ok t) (l : String) (a : Nat) :
    t.address? l = some a ↔ Defines source l a := by
  have hf := find?_of_foldlM_define h l
  simp only [SymbolTable.find?_empty, reduceCtorEq, false_or] at hf
  rw [SymbolTable.address?, Option.map_eq_some_iff]
  constructor
  · intro h'
    obtain ⟨d, hd, rfl⟩ := h'
    obtain ⟨p, hp, hl, rfl⟩ := (hf d).mp hd
    obtain ⟨b, hb⟩ := List.mem_iff_getElem?.mp hp
    rw [address_of_getElem?_place hb]
    exact ⟨_, content_of_getElem?_place hb, hl⟩
  · intro h'
    obtain ⟨line, hline, hl⟩ := h'
    obtain ⟨p, hp, rfl, rfl⟩ := exists_getElem?_place hline
    exact ⟨_, (hf _).mpr ⟨p, List.mem_of_getElem? hp, hl, rfl⟩, rfl⟩

theorem exists_collect_iff (source : List String) :
    (∃ t, collect source = .ok t) ↔
      ∀ l a b, Defines source l a → Defines source l b → a = b := by
  unfold collect
  rw [exists_foldlM_define_iff, List.pairwise_iff_getElem]
  constructor
  · rintro ⟨-, h⟩ l a b ⟨_, hfirst, hpl⟩ ⟨_, hsecond, hql⟩
    obtain ⟨p, hp, -, rfl⟩ := exists_getElem?_place hfirst
    obtain ⟨q, hq, -, rfl⟩ := exists_getElem?_place hsecond
    obtain ⟨ha, rfl⟩ := List.getElem?_eq_some_iff.mp hp
    obtain ⟨hb, rfl⟩ := List.getElem?_eq_some_iff.mp hq
    rcases Nat.lt_trichotomy a b with hab | hab | hab
    · exact absurd hql (h a b ha hb hab l hpl)
    · exact hab
    · exact absurd hpl (h b a hb ha hab l hql)
  · intro h
    refine ⟨by simp, ?_⟩
    intro a b ha hb hab l hp hq
    have hpa := content_of_getElem?_place (List.getElem?_eq_getElem ha)
    have hqb := content_of_getElem?_place (List.getElem?_eq_getElem hb)
    exact absurd (h l a b ⟨_, hpa, hp⟩ ⟨_, hqb, hq⟩) (Nat.ne_of_lt hab)

/-! ### The second pass -/

/-- The table says of every label what the text says. -/
def Agrees (t : SymbolTable) (source : List String) : Prop :=
  ∀ l a, t.address? l = some a ↔ Defines source l a

/-- Two such tables have the same addresses. -/
theorem Agrees.address?_eq {t t' : SymbolTable} {source : List String} (h : Agrees t source)
    (h' : Agrees t' source) (l : String) : t'.address? l = t.address? l :=
  Option.ext fun a => (h' l a).trans (h l a).symm

variable {t : SymbolTable} {source : List String}

theorem target_eq_label_iff (h : Agrees t source) (x : Operand) (a : Nat) :
    t.target x = .ok (.label a) ↔ Defines source x a := by
  rw [← h x a, SymbolTable.target]
  cases t.address? x with
  | some b => simp
  | none => cases Text.Decimal.signed32 x <;> simp

theorem target_eq_literal_iff (h : Agrees t source) (x : Operand) (n : Int) :
    t.target x = .ok (.literal n) ↔ (∀ a, ¬ Defines source x a) ∧ Literal x n := by
  simp only [← h x]
  rw [Literal, ← Text.Decimal.signed32_eq_ok_iff, SymbolTable.target]
  cases t.address? x with
  | some b => simp
  | none => cases Text.Decimal.signed32 x <;> simp

/-- A label counts from `origin`, a literal from nowhere. -/
def Target.from (origin : Int) : Target → Int
  | .label a => a - origin
  | .literal n => n

theorem denotes_iff (h : Agrees t source) (origin : Int) (x : Operand) (n : Int) :
    Denotes source origin x n ↔ ∃ v, t.target x = .ok v ∧ v.from origin = n := by
  constructor
  · rintro (⟨a, ha, rfl⟩ | ⟨hx, hn⟩)
    · exact ⟨_, (target_eq_label_iff h x a).mpr ha, rfl⟩
    · exact ⟨_, (target_eq_literal_iff h x n).mpr ⟨hx, hn⟩, rfl⟩
  · intro h'
    obtain ⟨v, hv, rfl⟩ := h'
    cases v with
    | label a => exact .inl ⟨a, (target_eq_label_iff h x a).mp hv, rfl⟩
    | literal n => exact .inr ((target_eq_literal_iff h x n).mp hv)

/-- An offset is the one 16-bit number of its value. -/
theorem offset_eq_ok_iff (n : Int) (off : Offset) : offset n = .ok off ↔ off.toInt = n := by
  have hlo := BitVec.le_toInt off
  have hhi := @BitVec.toInt_lt 16 off
  unfold offset
  split
  · next h =>
    rw [Except.ok.injEq]
    constructor
    · rintro rfl
      exact BitVec.toInt_ofInt_eq_self (by decide) h.1 (by omega)
    · rintro rfl
      exact BitVec.ofInt_toInt
  · next h =>
    refine ⟨fun h => (nomatch h), ?_⟩
    rintro rfl
    exact absurd ⟨hlo, by omega⟩ h

theorem exists_offset_iff (n : Int) : (∃ off, offset n = .ok off) ↔ -32768 ≤ n ∧ n ≤ 32767 := by
  unfold offset
  split <;> simp [*]

theorem absolute_eq (v : Target) : v.absolute = v.from 0 := by
  cases v <;> simp [Target.absolute, Target.from]

theorem relative_eq (a : Nat) (v : Target) : v.relative a = v.from (a + 1) := by
  cases v <;> rfl

/-- The part that `lw`, `sw` and `beq` share: look the operand up, count it from its origin, fit it
into 16 bits. -/
theorem exists_bind_offset_iff (h : Agrees t source) (origin : Int) (x : Operand)
    (count : Target → Int) (hc : ∀ v, count v = v.from origin) (j : Instruction Offset)
    (shape : Offset → Instruction Offset) :
    (do return shape (← offset (count (← t.target x)))) = Except.ok j ↔
      ∃ off, Denotes source origin x off.toInt ∧ shape off = j := by
  rw [bind_eq_ok_iff]
  constructor
  · intro h'
    obtain ⟨v, hv, hj⟩ := h'
    obtain ⟨off, hoff, hj⟩ := (bind_eq_ok_iff _ _ _).mp hj
    rw [hc, offset_eq_ok_iff] at hoff
    exact ⟨off, (denotes_iff h origin x _).mpr ⟨v, hv, hoff.symm⟩, Except.ok.inj hj⟩
  · intro h'
    obtain ⟨off, hoff, rfl⟩ := h'
    obtain ⟨v, hv, hn⟩ := (denotes_iff h origin x _).mp hoff
    refine ⟨v, hv, (bind_eq_ok_iff _ _ _).mpr ⟨off, ?_, rfl⟩⟩
    rw [hc, offset_eq_ok_iff, hn]

theorem resolve_eq_ok_iff (h : Agrees t source) (a : Nat) (i : Instruction Operand)
    (j : Instruction Offset) : resolve t a i = .ok j ↔ Resolves source a i j := by
  cases i with
  | add | nand | jalr | halt | noop =>
    constructor
    · intro hj
      cases hj
      constructor
    · rintro ⟨⟩
      rfl
  | lw x y s | sw x y s =>
    unfold resolve
    rw [exists_bind_offset_iff h 0 s Target.absolute absolute_eq]
    constructor
    · intro h'
      obtain ⟨off, hoff, rfl⟩ := h'
      constructor
      exact hoff
    · rintro ⟨⟩
      exact ⟨_, ‹_›, rfl⟩
  | beq x y s =>
    unfold resolve
    rw [exists_bind_offset_iff h (a + 1) s (Target.relative a) (relative_eq a)]
    constructor
    · intro h'
      obtain ⟨off, hoff, rfl⟩ := h'
      exact .beq x y hoff
    · rintro ⟨⟩
      exact ⟨_, ‹_›, rfl⟩

theorem word_code_eq_ok_iff (h : Agrees t source) (a : Nat) (i : Instruction Operand) (w : Word) :
    (Statement.code i).word t a = .ok w ↔ ∃ j, Resolves source a i j ∧ j.encode = w := by
  rw [Statement.word, map_eq_ok_iff]
  simp only [resolve_eq_ok_iff h]

theorem word_fill_eq_ok_iff (h : Agrees t source) (a : Nat) (x : Operand) (w : Word) :
    (Statement.fill x).word t a = .ok w ↔ ∃ n, Denotes source 0 x n ∧ BitVec.ofInt 32 n = w := by
  rw [Statement.word, map_eq_ok_iff]
  simp only [denotes_iff h, absolute_eq]
  constructor
  · intro h'
    obtain ⟨v, hv, rfl⟩ := h'
    exact ⟨_, ⟨v, hv, rfl⟩, rfl⟩
  · intro h'
    obtain ⟨_, ⟨v, hv, rfl⟩, rfl⟩ := h'
    exact ⟨v, hv, rfl⟩

theorem placed_word_eq_ok_iff (t : SymbolTable) (p : Placed) (w : Word) :
    p.word t = .ok w ↔ ∃ s, p.content.statement = .ok s ∧ s.word t p.address = .ok w := by
  rw [Placed.word, mapError_eq_ok_iff, bind_eq_ok_iff]

theorem length_of_emit {ws : List Word} (h : emit t source = .ok ws) :
    ws.length = (addressed source).length := by
  have hlen := congrArg List.length ((mapM_eq_ok_iff _ _ _).mp h)
  rw [List.length_map, List.length_map] at hlen
  rw [← map_content_place, List.length_map, hlen]

/-- Word number `a` comes from the statement at address `a`, which is resolved there. -/
theorem word_of_emit {ws : List Word} (h : emit t source = .ok ws) {a : Nat} {w : Word}
    (hw : ws[a]? = some w) : ∃ s, StatementAt source a s ∧ s.word t a = .ok w := by
  have ha := congrArg (fun rs => rs[a]?) ((mapM_eq_ok_iff _ _ _).mp h)
  simp only [List.getElem?_map, hw, Option.map_some] at ha
  obtain ⟨p, hp, hpw⟩ := Option.map_eq_some_iff.mp ha
  obtain ⟨s, hs, hsw⟩ := (placed_word_eq_ok_iff t p w).mp hpw
  rw [address_of_getElem?_place hp] at hsw
  exact ⟨s, ⟨p.content, content_of_getElem?_place hp, hs⟩, hsw⟩

theorem exists_emit_iff (t : SymbolTable) (source : List String) :
    (∃ ws, emit t source = .ok ws) ↔
      ∀ a < (addressed source).length, ∃ s, StatementAt source a s ∧ ∃ w, s.word t a = .ok w := by
  rw [emit, exists_mapM_iff]
  simp only [placed_word_eq_ok_iff]
  constructor
  · intro h a ha
    obtain ⟨p, hp, rfl, hl⟩ := exists_getElem?_place (List.getElem?_eq_getElem ha)
    obtain ⟨w, s, hs, hw⟩ := h p (List.mem_of_getElem? hp)
    exact ⟨s, ⟨p.content, content_of_getElem?_place hp, hs⟩, w, hw⟩
  · intro h p hp
    obtain ⟨a, hpa⟩ := List.mem_iff_getElem?.mp hp
    have hl := content_of_getElem?_place hpa
    obtain ⟨s, ⟨line, hline, hs⟩, w, hw⟩ := h a (List.getElem?_eq_some_iff.mp hl).1
    rw [hl, Option.some.injEq] at hline
    subst hline
    rw [← address_of_getElem?_place hpa] at hw
    exact ⟨w, s, hs, hw⟩

/-- Assembly is the second pass over a table that agrees with the text. -/
theorem assemble_eq_ok_iff (source : List String) (ws : List Word) :
    assemble source = .ok ws ↔ ∃ t, collect source = .ok t ∧ emit t source = .ok ws := by
  rw [assemble, bind_eq_ok_iff]

theorem agrees_of_collect (h : collect source = .ok t) : Agrees t source :=
  fun l a => address?_of_collect h l a

end SC32.Assembly
