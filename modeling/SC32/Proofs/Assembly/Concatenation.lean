import SC32.Proofs.Assembly.Placement

/-!
# One program behind another

Programs that share no label and do not name each other's are assembled one behind the other to the
words of the one and the words of the other, provided that the second reaches its own labels by
distance only. Its labels move by the length of the first, and those of the first stay. Main
statements: the table of both programs, and their words.
-/
namespace SC32.Assembly

/-- The labels that lines of the text begin with. -/
def defined (source : List String) : List String := (addressed source).filterMap Line.label

/-- The operands of one kind in the statements of a text. -/
def operands (kind : Statement → Option Operand) (source : List String) : List Operand :=
  (addressed source).filterMap fun l => l.statement.toOption.bind kind

/-- The programs share no label and do not name each other's; the second one names its own labels in
branches only. -/
structure Separate (p q : List String) : Prop where
  labels : ∀ l ∈ defined p, l ∉ defined q
  front : ∀ x ∈ operands Statement.immediate? p, x ∉ defined q
  behind : ∀ x ∈ operands Statement.immediate? q, x ∉ defined p
  branches : ∀ x ∈ operands Statement.absolute? q, x ∉ defined q

variable {p q : List String}

theorem mem_defined_iff (source : List String) (l : String) :
    l ∈ defined source ↔ ∃ a, Defines source l a := by
  rw [defined, List.mem_filterMap]
  constructor
  · rintro ⟨line, hline, hl⟩
    obtain ⟨a, ha⟩ := List.mem_iff_getElem?.mp hline
    exact ⟨a, line, ha, hl⟩
  · rintro ⟨a, line, ha, hl⟩
    exact ⟨line, List.mem_of_getElem? ha, hl⟩

theorem mem_defined_of_mem_place {source : List String} {x : Placed} (hx : x ∈ place source)
    {l : String} (hl : x.content.label = some l) : l ∈ defined source :=
  List.mem_filterMap.mpr ⟨x.content, content_mem_addressed hx, hl⟩

theorem mem_operands {kind : Statement → Option Operand} {source : List String} {x : Placed}
    {s : Statement} {o : Operand} (hx : x ∈ place source) (hs : x.content.statement = .ok s)
    (ho : kind s = some o) : o ∈ operands kind source := by
  refine List.mem_filterMap.mpr ⟨x.content, content_mem_addressed hx, ?_⟩
  rw [hs]
  exact ho

/-! ### The table -/

theorem defines_append_iff (p q : List String) (l : String) (a : Nat) :
    Defines (p ++ q) l a ↔
      Defines p l a ∨ ∃ b, Defines q l b ∧ a = b + (addressed p).length := by
  simp only [Defines, addressed_append, List.getElem?_append]
  split
  · next h =>
    constructor
    · exact .inl
    · rintro (hl | ⟨b, -, rfl⟩)
      · exact hl
      · omega
  · next h =>
    constructor
    · intro hl
      exact .inr ⟨a - (addressed p).length, hl, by omega⟩
    · rintro (⟨line, hline, -⟩ | ⟨b, hb, rfl⟩)
      · exact absurd (List.getElem?_eq_some_iff.mp hline).1 h
      · rwa [Nat.add_sub_cancel]

/-- There is a table for both programs when there is one for each of them. -/
theorem exists_collect_append_iff (h : Separate p q) :
    (∃ t, collect (p ++ q) = .ok t) ↔
      (∃ t₁, collect p = .ok t₁) ∧ ∃ t₂, collect q = .ok t₂ := by
  have hshared : ∀ l a b, Defines p l a → ¬ Defines q l b := by
    intro l a b ha hb
    exact h.labels l ((mem_defined_iff p l).mpr ⟨a, ha⟩) ((mem_defined_iff q l).mpr ⟨b, hb⟩)
  simp only [exists_collect_iff, defines_append_iff]
  constructor
  · intro hunique
    constructor
    · intro l a b ha hb
      exact hunique l a b (.inl ha) (.inl hb)
    · intro l a b ha hb
      exact Nat.add_right_cancel (hunique l _ _ (.inr ⟨a, ha, rfl⟩) (.inr ⟨b, hb, rfl⟩))
  · rintro ⟨hp, hq⟩ l a b (ha | ⟨a', ha, rfl⟩) (hb | ⟨b', hb, rfl⟩)
    · exact hp l a b ha hb
    · exact absurd hb (hshared l a b' ha)
    · exact absurd ha (hshared l b a' hb)
    · rw [hq l a' b' ha hb]

variable {t t₁ t₂ : SymbolTable}

/-- The table of both programs has the labels of the first where they are, and those of the second
moved. -/
theorem address?_append (h : collect (p ++ q) = .ok t) (h₁ : collect p = .ok t₁)
    (h₂ : collect q = .ok t₂) (l : String) (a : Nat) :
    t.address? l = some a ↔
      t₁.address? l = some a ∨ ∃ b, t₂.address? l = some b ∧ a = b + (addressed p).length := by
  simp only [address?_of_collect h, address?_of_collect h₁, address?_of_collect h₂,
    defines_append_iff]

/-- A name that is no label of the text is not in its table. -/
theorem address?_eq_none_iff (h : collect p = .ok t) (l : String) :
    t.address? l = none ↔ l ∉ defined p := by
  simp only [mem_defined_iff, ← address?_of_collect h, Option.eq_none_iff_forall_ne_some,
    not_exists, ne_eq]

theorem address?_front (h : collect (p ++ q) = .ok t) (h₁ : collect p = .ok t₁)
    (h₂ : collect q = .ok t₂) {l : String} (hl : l ∉ defined q) :
    t.address? l = t₁.address? l := by
  have hnone := (address?_eq_none_iff h₂ l).mpr hl
  apply Option.ext
  intro a
  simp [address?_append h h₁ h₂, hnone]

theorem address?_behind (h : collect (p ++ q) = .ok t) (h₁ : collect p = .ok t₁)
    (h₂ : collect q = .ok t₂) {l : String} (hl : l ∉ defined p) :
    t.address? l = (t₂.address? l).map (· + (addressed p).length) := by
  have hnone := (address?_eq_none_iff h₁ l).mpr hl
  apply Option.ext
  intro a
  rw [address?_append h h₁ h₂, hnone, Option.map_eq_some_iff]
  simp [eq_comm]

/-! ### The words -/

/-- A line of the first program keeps its word. -/
theorem word_front (hsep : Separate p q) (h : collect (p ++ q) = .ok t) (h₁ : collect p = .ok t₁)
    (h₂ : collect q = .ok t₂) {x : Placed} (hx : x ∈ place p) :
    x.content.word t x.address = x.content.word t₁ x.address := by
  unfold Line.word
  cases hs : x.content.statement with
  | error e => rfl
  | ok s =>
    refine word_congr x.address ?_
    intro o ho
    exact target_congr (address?_front h h₁ h₂ (hsep.front o (mem_operands hx hs ho)))

/-- A line of the second program keeps its word where it is moved to. -/
theorem word_behind (hsep : Separate p q) (h : collect (p ++ q) = .ok t) (h₁ : collect p = .ok t₁)
    (h₂ : collect q = .ok t₂) {x : Placed} (hx : x ∈ place q) :
    x.content.word t (x.address + (addressed p).length) = x.content.word t₂ x.address := by
  unfold Line.word
  cases hs : x.content.statement with
  | error e => rfl
  | ok s =>
    have hbehind : ∀ o, s.immediate? = some o →
        t.address? o = (t₂.address? o).map (· + (addressed p).length) := by
      intro o ho
      exact address?_behind h h₁ h₂ (hsep.behind o (mem_operands hx hs ho))
    refine word_move _ x.address ?_ ?_
    · intro o ho
      have hnone := (address?_eq_none_iff h₂ o).mpr (hsep.branches o (mem_operands hx hs ho))
      apply target_congr
      rw [hbehind o (by rw [immediate?_eq_or, ho]; rfl), hnone]
      rfl
    · intro o ho
      have hnone := absolute?_of_relative? ho
      exact target_move (hbehind o (by rw [immediate?_eq_or, hnone, ho]; rfl))

theorem emit_append_eq_ok_iff (hsep : Separate p q) (h : collect (p ++ q) = .ok t)
    (h₁ : collect p = .ok t₁) (h₂ : collect q = .ok t₂) (w : List Word) :
    emit t (p ++ q) = .ok w ↔
      ∃ w₁ w₂, emit t₁ p = .ok w₁ ∧ emit t₂ q = .ok w₂ ∧ w = w₁ ++ w₂ := by
  have hfront : (place p).map (fun x => x.content.word t x.address) =
      (place p).map fun x => x.content.word t₁ x.address :=
    List.map_congr_left fun _ hx => word_front hsep h h₁ h₂ hx
  have hbehind : ((place q).map (Placed.move p.length (addressed p).length)).map
      (fun x => x.content.word t x.address) =
        (place q).map fun x => x.content.word t₂ x.address := by
    rw [List.map_map]
    exact List.map_congr_left fun _ hx => word_behind hsep h h₁ h₂ hx
  simp only [emit_eq_ok_iff, place_append, List.map_append, hfront, hbehind]
  constructor
  · intro hw
    obtain ⟨w₁, w₂, rfl, hw₁, hw₂⟩ := List.map_eq_append_iff.mp hw.symm
    exact ⟨w₁, w₂, hw₁.symm, hw₂.symm, rfl⟩
  · rintro ⟨w₁, w₂, hw₁, hw₂, rfl⟩
    rw [hw₁, hw₂, List.map_append]

theorem assemble_append_eq_ok_iff (hsep : Separate p q) (w : List Word) :
    assemble (p ++ q) = .ok w ↔
      ∃ w₁ w₂, assemble p = .ok w₁ ∧ assemble q = .ok w₂ ∧ w = w₁ ++ w₂ := by
  simp only [assemble_eq_ok_iff]
  constructor
  · rintro ⟨t, h, hw⟩
    obtain ⟨⟨t₁, h₁⟩, t₂, h₂⟩ := (exists_collect_append_iff hsep).mp ⟨t, h⟩
    obtain ⟨w₁, w₂, hw₁, hw₂, rfl⟩ := (emit_append_eq_ok_iff hsep h h₁ h₂ w).mp hw
    exact ⟨w₁, w₂, ⟨t₁, h₁, hw₁⟩, ⟨t₂, h₂, hw₂⟩, rfl⟩
  · rintro ⟨w₁, w₂, ⟨t₁, h₁, hw₁⟩, ⟨t₂, h₂, hw₂⟩, rfl⟩
    obtain ⟨t, h⟩ := (exists_collect_append_iff hsep).mpr ⟨⟨t₁, h₁⟩, t₂, h₂⟩
    exact ⟨t, h, (emit_append_eq_ok_iff hsep h h₁ h₂ _).mpr ⟨w₁, w₂, hw₁, hw₂, rfl⟩⟩

/-- Programs that are separate are assembled one behind the other as they are each for itself, and
the table of both has their labels, those of the second moved by the number of words of the
first. -/
theorem concatenation_exact (p q : List String) (hsep : Separate p q) :
    (∀ w, assemble (p ++ q) = .ok w ↔
      ∃ w₁ w₂, assemble p = .ok w₁ ∧ assemble q = .ok w₂ ∧ w = w₁ ++ w₂) ∧
    (∀ t₁ t₂, collect p = .ok t₁ → collect q = .ok t₂ → ∃ t, collect (p ++ q) = .ok t ∧
      ∀ l a, t.address? l = some a ↔
        t₁.address? l = some a ∨ ∃ b, t₂.address? l = some b ∧ a = b + (addressed p).length) ∧
    ∀ w₁, assemble p = .ok w₁ → w₁.length = (addressed p).length := by
  refine ⟨assemble_append_eq_ok_iff hsep, ?_, ?_⟩
  · intro t₁ t₂ h₁ h₂
    obtain ⟨t, h⟩ := (exists_collect_append_iff hsep).mpr ⟨⟨t₁, h₁⟩, t₂, h₂⟩
    exact ⟨t, h, address?_append h h₁ h₂⟩
  · intro w₁ h₁
    obtain ⟨t₁, -, hw₁⟩ := (assemble_eq_ok_iff p w₁).mp h₁
    exact length_of_emit hw₁

/-- A program that stores to its own label and branches back. -/
def backwards : List String := ["loop sw 0 1 loop", "", "beq 0 0 loop"]

/-- A program that reaches its own label by distance and takes a number for a number. -/
def relocatable : List String := ["end halt", "beq 0 1 end", ".fill 7"]

theorem concatenation_exact_backwards :
    Separate backwards relocatable ∧
    assemble (backwards ++ relocatable) =
      .ok ([0xC10000, 0x100FFFE] ++ [0x1800000, 0x101FFFE, 7]) ∧
    ∃ t, collect (backwards ++ relocatable) = .ok t ∧ t.address? "loop" = some 0 ∧
      t.address? "end" = some 2 := by
  have hsep : Separate backwards relocatable :=
    ⟨by decide +kernel, by decide +kernel, by decide +kernel, by decide +kernel⟩
  obtain ⟨hwords, htable, -⟩ := concatenation_exact backwards relocatable hsep
  obtain ⟨t, ht, haddress⟩ := htable _ _ rfl rfl
  exact ⟨hsep, (hwords _).mpr ⟨_, _, rfl, rfl, rfl⟩, t, ht,
    (haddress "loop" 0).mpr (.inl rfl), (haddress "end" 2).mpr (.inr ⟨0, rfl, rfl⟩)⟩

end SC32.Assembly
