import SC32.Proofs.Assembly.Exact
import SC32.Proofs.Machine.Step

/-!
# Labels when the words are executed

What the assembler writes for a label is what the machine reaches: a branch goes to the line of its
label, an access goes to the cell of the line, and a word that a line fills in with a label is a
place to jump to.
-/
namespace SC32.Assembly

/-- The machine is about to carry out word number `k` of a program that its memory has room for. -/
structure Fetches (m : Machine) (ws : List Word) (k : Nat) : Prop where
  pc : m.pc.toInt = k
  inside : k < ws.length
  cell : m.cell? k = ws[k]?
  room : ws.length ≤ m.capacity

/-- Where a step from address `k` goes when its line uses the label `l`, which is at address `t`.
The sum of a base register and `t` is not reduced. -/
structure Follows (source : List String) (m : Machine) (k : Nat) (l : String) (t : Nat) :
    Prop where
  beq : ∀ x y, StatementAt source k (.code (.beq x y l)) →
    m.step.2.pc.toInt = if m.register x = m.register y then (t : Int) else k + 1
  lw : ∀ x y, StatementAt source k (.code (.lw x y l)) →
    m.step =
      if 0 ≤ (m.register x).toInt + t ∧ (m.register x).toInt + t < m.capacity then
        (.executed k (.lw x y (BitVec.ofInt 16 t)),
          m.advance.setRegister y (m.memory.read ((m.register x).toInt + t).toNat))
      else (.outOfBounds k .load ((m.register x).toInt + t), m.advance)
  sw : ∀ x y, StatementAt source k (.code (.sw x y l)) →
    m.step =
      if 0 ≤ (m.register x).toInt + t ∧ (m.register x).toInt + t < m.capacity then
        (.executed k (.sw x y (BitVec.ofInt 16 t)),
          { m.advance with
            memory := m.memory.set ((m.register x).toInt + t).toNat (m.register y) })
      else (.outOfBounds k .store ((m.register x).toInt + t), m.advance)
  /-- Where there is a cell, its word goes into the register. -/
  loads : ∀ x y, StatementAt source k (.code (.lw x y l)) →
    ∀ a < m.capacity, (m.register x).toInt + t = a → m.AfterLoad m.step.2 y a
  /-- Where there is a cell, the word of the register goes into it. -/
  stores : ∀ x y, StatementAt source k (.code (.sw x y l)) →
    ∀ a < m.capacity, (m.register x).toInt + t = a → m.AfterStore m.step.2 y a
  /-- From a base register that holds 0 the access stays in memory, at the line of the label. -/
  lw_zero : ∀ x y, StatementAt source k (.code (.lw x y l)) → m.register x = 0 →
    t < m.capacity ∧
    m.step = (.executed k (.lw x y (BitVec.ofInt 16 t)),
      m.advance.setRegister y (m.memory.read t)) ∧
    m.AfterLoad m.step.2 y t
  sw_zero : ∀ x y, StatementAt source k (.code (.sw x y l)) → m.register x = 0 →
    t < m.capacity ∧
    m.step = (.executed k (.sw x y (BitVec.ofInt 16 t)),
      { m.advance with memory := m.memory.set t (m.register y) }) ∧
    m.AfterStore m.step.2 y t

/-- The step of the machine loads register `r` from cell `q`. -/
def Loads (m : Machine) (r : Reg) (q : Nat) : Prop :=
  ∃ a x off, m.step.1 = .executed a (.lw x r off) ∧ m.effective x off = q

/-- The step of the machine is a jump to register `r` that links register `s`. -/
def Jumps (m : Machine) (r s : Reg) : Prop := ∃ a, m.step.1 = .executed a (.jalr r s)

variable {source : List String} {ws : List Word} {m : Machine} {k t : Nat} {l : String}

/-- Counted from anywhere, a label is one number. -/
theorem denotes_iff_of_defines (h : WellFormed source) (hl : Defines source l t) (origin n : Int) :
    Denotes source origin l n ↔ n = t - origin := by
  constructor
  · rintro (⟨a, ha, rfl⟩ | ⟨hnone, -⟩)
    · rw [h.unique l a t ha hl]
    · exact absurd hl (hnone t)
  · rintro rfl
    exact .inl ⟨t, hl, rfl⟩

theorem step_of_fetches (h : Fetches m ws k) {w : Word} {j : Instruction Offset}
    (hw : ws[k]? = some w) (hj : Instruction.decode w = .ok j) :
    m.step = m.advance.perform k j := by
  have hk : k < m.memory.size := Nat.lt_of_lt_of_le h.inside h.room
  have hcell := h.cell
  rw [Machine.cell?, Memory.cell?, if_pos hk, hw, Option.some.injEq] at hcell
  have hread : m.memory.read m.pc.toInt.toNat = w := by
    rw [h.pc, Int.toNat_natCast, hcell]
  have hpc : 0 ≤ m.pc.toInt ∧ m.pc.toInt < m.memory.size := by
    rw [h.pc]
    omega
  rw [Machine.step_of_decode hpc (hread ▸ hj), h.pc, Int.toNat_natCast]

/-- The machine carries out what the line at the program counter says. -/
theorem step_of_statement (ha : assemble source = .ok ws) (hlen : ws.length < 2 ^ 31)
    (h : Fetches m ws k) {i : Instruction Operand} (hs : StatementAt source k (.code i)) :
    ∃ j, Resolves source k i j ∧ m.step = m.advance.perform k j := by
  rw [length_of_assemble ha] at hlen
  have hw := List.getElem?_eq_getElem h.inside
  obtain ⟨s, hs', hmeans⟩ := means_of_assemble ha hlen hw
  rw [← hs.unique hs'] at hmeans
  obtain ⟨j, hj, hres⟩ := hmeans
  exact ⟨j, hres, step_of_fetches h hw hj⟩

theorem toInt_pc_advance (h : Fetches m ws k) (hlen : ws.length < 2 ^ 31) :
    m.advance.pc.toInt = k + 1 := by
  have hin := h.inside
  refine Machine.toInt_add_of_fits ?_ (by omega) (by omega)
  rw [h.pc]
  rfl

/-- A taken branch ends at the label, however far and in whichever direction it is. -/
theorem pc_of_beq (ha : assemble source = .ok ws) (hlen : ws.length < 2 ^ 31)
    (h : Fetches m ws k) (hl : Defines source l t) {x y : Reg}
    (hs : StatementAt source k (.code (.beq x y l))) :
    m.step.2.pc.toInt = if m.register x = m.register y then (t : Int) else k + 1 := by
  have hwf := (exists_assemble_iff source).mp ⟨ws, ha⟩
  have ht := hl.lt_length
  rw [← length_of_assemble ha] at ht
  have hpc := toInt_pc_advance h hlen
  obtain ⟨j, hj, hstep⟩ := step_of_statement ha hlen h hs
  cases hj with
  | @beq _ off _ _ hoff =>
    have hval := (denotes_iff_of_defines hwf hl _ _).mp hoff
    rw [hstep]
    change (if m.register x = m.register y then _ else _ : Event × Machine).2.pc.toInt = _
    split
    · refine Machine.toInt_add_of_fits (w := off.extend) ?_ (by omega) (by omega)
      rw [hpc, Offset.extend_eq, BitVec.toInt_signExtend_of_le (by decide), hval]
      omega
    · exact hpc

/-- An access to a label has the address of the label as its offset, and adds it to the base as
integers are added. -/
theorem effective_of_label (ha : assemble source = .ok ws) (hl : Defines source l t) {off : Offset}
    (hoff : Denotes source 0 l off.toInt) (x : Reg) :
    off = BitVec.ofInt 16 t ∧ m.advance.effective x off = (m.register x).toInt + t := by
  have hwf := (exists_assemble_iff source).mp ⟨ws, ha⟩
  have hval : off.toInt = t := by
    rw [(denotes_iff_of_defines hwf hl _ _).mp hoff, Int.sub_zero]
  constructor
  · rw [← hval, BitVec.ofInt_toInt]
  · rw [Machine.effective, Word.signed_eq, Offset.signed_eq, hval]
    rfl

theorem step_of_lw (ha : assemble source = .ok ws) (hlen : ws.length < 2 ^ 31)
    (h : Fetches m ws k) (hl : Defines source l t) {x y : Reg}
    (hs : StatementAt source k (.code (.lw x y l))) :
    m.step =
      if 0 ≤ (m.register x).toInt + t ∧ (m.register x).toInt + t < m.capacity then
        (.executed k (.lw x y (BitVec.ofInt 16 t)),
          m.advance.setRegister y (m.memory.read ((m.register x).toInt + t).toNat))
      else (.outOfBounds k .load ((m.register x).toInt + t), m.advance) := by
  obtain ⟨j, hj, hstep⟩ := step_of_statement ha hlen h hs
  cases hj with
  | @lw _ off _ _ hoff =>
    obtain ⟨hbits, heff⟩ := effective_of_label (m := m) ha hl hoff x
    rw [hstep, ← hbits, ← heff]
    split
    · next hin => exact Machine.perform_lw_of_mem k hin
    · next hin => exact Machine.perform_lw_of_not_mem k hin

theorem step_of_sw (ha : assemble source = .ok ws) (hlen : ws.length < 2 ^ 31)
    (h : Fetches m ws k) (hl : Defines source l t) {x y : Reg}
    (hs : StatementAt source k (.code (.sw x y l))) :
    m.step =
      if 0 ≤ (m.register x).toInt + t ∧ (m.register x).toInt + t < m.capacity then
        (.executed k (.sw x y (BitVec.ofInt 16 t)),
          { m.advance with
            memory := m.memory.set ((m.register x).toInt + t).toNat (m.register y) })
      else (.outOfBounds k .store ((m.register x).toInt + t), m.advance) := by
  obtain ⟨j, hj, hstep⟩ := step_of_statement ha hlen h hs
  cases hj with
  | @sw _ off _ _ hoff =>
    obtain ⟨hbits, heff⟩ := effective_of_label (m := m) ha hl hoff x
    rw [hstep, ← hbits, ← heff]
    split
    · next hin => exact Machine.perform_sw_of_mem k hin
    · next hin => exact Machine.perform_sw_of_not_mem k hin

theorem afterLoad_of_lw (ha : assemble source = .ok ws) (hlen : ws.length < 2 ^ 31)
    (h : Fetches m ws k) (hl : Defines source l t) {x y : Reg}
    (hs : StatementAt source k (.code (.lw x y l))) {a : Nat} (hin : a < m.capacity)
    (hsum : (m.register x).toInt + t = a) : m.AfterLoad m.step.2 y a := by
  rw [step_of_lw ha hlen h hl hs, hsum, if_pos (by omega), Int.toNat_natCast]
  exact Machine.afterLoad_setRegister hin y

theorem afterStore_of_sw (ha : assemble source = .ok ws) (hlen : ws.length < 2 ^ 31)
    (h : Fetches m ws k) (hl : Defines source l t) {x y : Reg}
    (hs : StatementAt source k (.code (.sw x y l))) {a : Nat} (hin : a < m.capacity)
    (hsum : (m.register x).toInt + t = a) : m.AfterStore m.step.2 y a := by
  rw [step_of_sw ha hlen h hl hs, hsum, if_pos (by omega), Int.toNat_natCast]
  exact Machine.afterStore_set hin y

/-- The lines of a program that is in memory are in memory. -/
theorem lt_capacity_of_defines (ha : assemble source = .ok ws) (h : Fetches m ws k)
    (hl : Defines source l t) : t < m.capacity := by
  have ht := hl.lt_length
  rw [← length_of_assemble ha] at ht
  exact Nat.lt_of_lt_of_le ht h.room

/-- With 0 in the base register, an access goes where the offset says. -/
theorem base_zero {x : Reg} (hx : m.register x = 0) : (m.register x).toInt + t = (t : Int) := by
  rw [hx]
  exact Int.zero_add _

theorem follows_of_assemble (ha : assemble source = .ok ws) (hlen : ws.length < 2 ^ 31)
    (h : Fetches m ws k) (hl : Defines source l t) : Follows source m k l t where
  beq _ _ hs := pc_of_beq ha hlen h hl hs
  lw _ _ hs := step_of_lw ha hlen h hl hs
  sw _ _ hs := step_of_sw ha hlen h hl hs
  loads _ _ hs _ := afterLoad_of_lw ha hlen h hl hs
  stores _ _ hs _ := afterStore_of_sw ha hlen h hl hs
  lw_zero x y hs hx := by
    have ht := lt_capacity_of_defines ha h hl
    refine ⟨ht, ?_, afterLoad_of_lw ha hlen h hl hs ht (base_zero hx)⟩
    rw [step_of_lw ha hlen h hl hs, base_zero hx, if_pos (by omega), Int.toNat_natCast]
  sw_zero x y hs hx := by
    have ht := lt_capacity_of_defines ha h hl
    refine ⟨ht, ?_, afterStore_of_sw ha hlen h hl hs ht (base_zero hx)⟩
    rw [step_of_sw ha hlen h hl hs, base_zero hx, if_pos (by omega), Int.toNat_natCast]

/-- The word of a line that fills in a label is the label's address. -/
theorem toInt_of_fill (ha : assemble source = .ok ws) (hlen : ws.length < 2 ^ 31) {f : Nat}
    {w : Word} (hs : StatementAt source f (.fill l)) (hl : Defines source l t)
    (hw : ws[f]? = some w) : w.toInt = t := by
  have hwf := (exists_assemble_iff source).mp ⟨ws, ha⟩
  rw [length_of_assemble ha] at hlen
  obtain ⟨s, hs', hmeans⟩ := means_of_assemble ha hlen hw
  rw [← hs.unique hs'] at hmeans
  rw [(denotes_iff_of_defines hwf hl 0 _).mp hmeans, Int.sub_zero]

/-- A load puts into the register what the cell holds. -/
theorem cell?_of_loads {r : Reg} {q : Nat} (h : Loads m r q) :
    m.cell? q = some (m.step.2.register r) := by
  obtain ⟨a, x, off, hevent, hq⟩ := h
  have hstep := Machine.step_of_executed hevent
  by_cases hin : 0 ≤ m.advance.effective x off ∧ m.advance.effective x off < m.memory.size
  · have heff : m.advance.effective x off = q := hq
    rw [Machine.perform_lw_of_mem a hin, heff, Int.toNat_natCast] at hstep
    have hlt : q < m.memory.size := by omega
    rw [hstep]
    exact (Machine.afterLoad_setRegister hlt r).loaded
  · rw [hstep, Machine.perform_lw_of_not_mem a hin] at hevent
    cases hevent

/-- A jump ends where its register says, if the link goes to another register. -/
theorem pc_of_jumps {r s : Reg} (h : Jumps m r s) (hrs : s ≠ r) :
    m.step.2.pc = m.register r := by
  obtain ⟨a, hevent⟩ := h
  rw [Machine.step_of_executed hevent]
  change (m.advance.setRegister s m.advance.pc).register r = _
  rw [Machine.register_setRegister, if_neg hrs.symm]
  rfl

/-- The arithmetic on labels agrees with the steps of any machine that holds the words: for the
statements that use a label, and for a word that a line fills in with one, wherever that word is
loaded from and whatever happens until the register is used. -/
theorem labels_exact (source : List String) (ws : List Word) (ha : assemble source = .ok ws)
    (hlen : ws.length < 2 ^ 31) :
    (∀ m k l t, Fetches m ws k → Defines source l t → Follows source m k l t) ∧
    ∀ f l t, StatementAt source f (.fill l) → Defines source l t →
      ∀ m q r, m.cell? q = ws[f]? → Loads m r q →
        ∀ m' s, m'.register r = m.step.2.register r → s ≠ r → Jumps m' r s →
          m'.step.2.pc.toInt = t := by
  refine ⟨fun m k l t h hl => follows_of_assemble ha hlen h hl, ?_⟩
  intro f l t hs hl m q r hcell hload m' s hkept hrs hjump
  have hval := toInt_of_fill ha hlen hs hl (hcell ▸ cell?_of_loads hload)
  rw [pc_of_jumps hjump hrs, hkept, hval]

/-- A load from a line further down, a branch back and a jump through a filled word. -/
def roundabout : List String :=
  ["loop lw 0 1 back", "beq 0 0 loop", "jalr 1 2", "back .fill loop"]

def roundaboutWords : List Word := [0x810003, 0x100FFFE, 0x14A0000, 0]

theorem labels_exact_roundabout :
    assemble roundabout = .ok roundaboutWords ∧ roundaboutWords.length < 2 ^ 31 ∧
    Follows roundabout (((Machine.blank 4).load roundaboutWords).setPc 1) 1 "loop" 0 ∧
    (((Machine.blank 4).load roundaboutWords).step.2.setPc 2).step.2.pc.toInt = 0 := by
  have ha : assemble roundabout = .ok roundaboutWords := rfl
  have hlen : roundaboutWords.length < 2 ^ 31 := by decide
  have hexact := labels_exact roundabout roundaboutWords ha hlen
  have hloop : Defines roundabout "loop" 0 := ⟨_, rfl, rfl⟩
  have hfetch : Fetches (((Machine.blank 4).load roundaboutWords).setPc 1) roundaboutWords 1 :=
    ⟨rfl, by decide, by decide +kernel, by decide⟩
  have hload : Loads ((Machine.blank 4).load roundaboutWords) 1 3 :=
    ⟨0, 0, 3, by decide +kernel, by decide +kernel⟩
  have hjump : Jumps (((Machine.blank 4).load roundaboutWords).step.2.setPc 2) 1 2 :=
    ⟨2, by decide +kernel⟩
  exact ⟨ha, hlen, hexact.1 _ 1 "loop" 0 hfetch hloop,
    hexact.2 3 "loop" 0 ⟨_, rfl, rfl⟩ hloop _ 3 1 (by decide +kernel) hload _ 2 rfl (by decide)
      hjump⟩

end SC32.Assembly
