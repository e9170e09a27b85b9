import Mathlib.Data.List.Forall2

/-!
# Computations that may fail

When a composed computation succeeds, and with what. A list is traversed with success exactly when
each of its members is, and otherwise fails as its first member that fails. Two computations are
alike when both succeed or both fail, with results or errors that are related, and to compose them
and to traverse lists with them keeps that.
-/
namespace SC32

variable {α β γ κ ε δ σ τ : Type}

theorem bind_eq_ok_iff (x : Except ε α) (f : α → Except ε β) (b : β) :
    x >>= f = .ok b ↔ ∃ a, x = .ok a ∧ f a = .ok b := by
  cases x <;> simp [bind, Except.bind]

theorem map_eq_ok_iff (x : Except ε α) (f : α → β) (b : β) :
    x.map f = .ok b ↔ ∃ a, x = .ok a ∧ f a = b := by
  cases x <;> simp [Except.map]

theorem mapError_eq_ok_iff (x : Except ε α) (f : ε → δ) (a : α) :
    x.mapError f = .ok a ↔ x = .ok a := by
  cases x with
  | error e => exact ⟨fun h => (nomatch h), fun h => (nomatch h)⟩
  | ok b =>
    constructor
    · intro h
      cases h
      rfl
    · intro h
      cases h
      rfl

/-- The results stand in the order of the members. -/
theorem mapM_eq_ok_iff (f : α → Except ε β) (as : List α) (bs : List β) :
    as.mapM f = .ok bs ↔ as.map f = bs.map .ok := by
  induction as generalizing bs with
  | nil => cases bs <;> simp [pure, Except.pure]
  | cons a as ih =>
    rw [List.mapM_cons, bind_eq_ok_iff]
    constructor
    · intro h'
      obtain ⟨b, hb, h⟩ := h'
      obtain ⟨bs', hbs, h⟩ := (bind_eq_ok_iff _ _ _).mp h
      cases h
      rw [List.map_cons, List.map_cons, hb, (ih bs').mp hbs]
    · intro h
      cases bs with
      | nil => cases h
      | cons b bs =>
        rw [List.map_cons, List.map_cons, List.cons.injEq] at h
        exact ⟨b, h.1, (bind_eq_ok_iff _ _ _).mpr ⟨bs, (ih bs).mpr h.2, rfl⟩⟩

theorem exists_mapM_iff (f : α → Except ε β) (as : List α) :
    (∃ bs, as.mapM f = .ok bs) ↔ ∀ a ∈ as, ∃ b, f a = .ok b := by
  induction as with
  | nil => simp [pure, Except.pure]
  | cons a as ih =>
    rw [List.forall_mem_cons, ← ih]
    constructor
    · intro h'
      obtain ⟨bs, h⟩ := h'
      rw [List.mapM_cons] at h
      obtain ⟨b, hb, h⟩ := (bind_eq_ok_iff _ _ _).mp h
      obtain ⟨bs', hbs, -⟩ := (bind_eq_ok_iff _ _ _).mp h
      exact ⟨⟨b, hb⟩, bs', hbs⟩
    · intro h'
      obtain ⟨⟨b, hb⟩, bs, hbs⟩ := h'
      refine ⟨b :: bs, ?_⟩
      rw [mapM_eq_ok_iff] at hbs ⊢
      rw [List.map_cons, List.map_cons, hb, hbs]

/-- Traversals of two lists have the same results when their members have. -/
theorem map_eq_map_ok_congr (f : α → Except ε β) (g : α → Except δ β) (as : List α)
    (h : ∀ a ∈ as, ∀ b, f a = .ok b ↔ g a = .ok b) (bs : List β) :
    as.map f = bs.map .ok ↔ as.map g = bs.map .ok := by
  induction as generalizing bs with
  | nil => simp
  | cons a as ih =>
    obtain ⟨ha, has⟩ := List.forall_mem_cons.mp h
    cases bs with
    | nil => simp
    | cons b bs => rw [List.map_cons, List.map_cons, List.cons.injEq, ha, ih has, List.map_cons,
        List.map_cons, List.cons.injEq]

/-! ### The first failure -/

theorem bind_eq_error_iff (x : Except ε α) (f : α → Except ε β) (e : ε) :
    x >>= f = .error e ↔ x = .error e ∨ ∃ a, x = .ok a ∧ f a = .error e := by
  cases x <;> simp [bind, Except.bind]

theorem map_eq_error_iff (x : Except ε α) (f : α → β) (e : ε) :
    x.map f = .error e ↔ x = .error e := by
  cases x <;> simp [Except.map]

theorem mapError_eq_error_iff (x : Except ε α) (f : ε → δ) (d : δ) :
    x.mapError f = .error d ↔ ∃ e, x = .error e ∧ f e = d := by
  cases x with
  | error e =>
    change Except.error (f e) = _ ↔ _
    simp
  | ok a =>
    change Except.ok a = _ ↔ _
    simp

/-- What stands behind the first failure is not looked at. -/
theorem mapM_eq_error_iff (f : α → Except ε β) (as : List α) (e : ε) :
    as.mapM f = .error e ↔
      ∃ before a behind, as = before ++ a :: behind ∧ (∀ a' ∈ before, ∃ b, f a' = .ok b) ∧
        f a = .error e := by
  induction as with
  | nil => simp [pure, Except.pure]
  | cons a as ih =>
    rw [List.mapM_cons, bind_eq_error_iff]
    constructor
    · rintro (h | ⟨b, hb, h⟩)
      · exact ⟨[], a, as, rfl, List.forall_mem_nil _, h⟩
      · obtain h | ⟨bs, -, h⟩ := (bind_eq_error_iff _ _ _).mp h
        · obtain ⟨before, a', behind, rfl, hbefore, he⟩ := ih.mp h
          exact ⟨a :: before, a', behind, rfl, List.forall_mem_cons.mpr ⟨⟨b, hb⟩, hbefore⟩, he⟩
        · cases h
    · rintro ⟨before, a', behind, h, hbefore, he⟩
      cases before with
      | nil =>
        cases h
        exact .inl he
      | cons c before =>
        cases h
        obtain ⟨⟨b, hb⟩, hbefore⟩ := List.forall_mem_cons.mp hbefore
        have hrest := ih.mpr ⟨before, a', behind, rfl, hbefore, he⟩
        exact .inr ⟨b, hb, (bind_eq_error_iff _ _ _).mpr (.inl hrest)⟩

/-- The state in which a fold fails is that of the members before. -/
theorem foldlM_eq_error_iff (f : σ → α → Except ε σ) (as : List α) (s : σ) (e : ε) :
    as.foldlM f s = .error e ↔
      ∃ before a behind s', as = before ++ a :: behind ∧ before.foldlM f s = .ok s' ∧
        f s' a = .error e := by
  induction as generalizing s with
  | nil => simp [pure, Except.pure]
  | cons a as ih =>
    rw [List.foldlM_cons, bind_eq_error_iff]
    constructor
    · rintro (h | ⟨s', hs', h⟩)
      · exact ⟨[], a, as, s, rfl, rfl, h⟩
      · obtain ⟨before, a', behind, s'', rfl, hs'', he⟩ := (ih s').mp h
        refine ⟨a :: before, a', behind, s'', rfl, ?_, he⟩
        rw [List.foldlM_cons, bind_eq_ok_iff]
        exact ⟨s', hs', hs''⟩
    · rintro ⟨before, a', behind, s'', h, hs'', he⟩
      cases before with
      | nil =>
        cases h
        cases hs''
        exact .inl he
      | cons c before =>
        cases h
        rw [List.foldlM_cons, bind_eq_ok_iff] at hs''
        obtain ⟨s', hs', hs''⟩ := hs''
        exact .inr ⟨s', hs', (ih s').mpr ⟨before, a', behind, s'', rfl, hs'', he⟩⟩

/-! ### Two computations side by side -/

/-- Both succeed, with results that `r` relates, or both fail, with errors that `s` relates. -/
inductive Alike (r : α → β → Prop) (s : ε → δ → Prop) : Except ε α → Except δ β → Prop where
  | ok {a : α} {b : β} (h : r a b) : Alike r s (.ok a) (.ok b)
  | error {e : ε} {d : δ} (h : s e d) : Alike r s (.error e) (.error d)

namespace Alike

variable {r : α → β → Prop} {s : ε → δ → Prop}

theorem bind {r' : γ → κ → Prop} {x : Except ε α} {y : Except δ β} {f : α → Except ε γ}
    {g : β → Except δ κ} (h : Alike r s x y) (hf : ∀ a b, r a b → Alike r' s (f a) (g b)) :
    Alike r' s (x >>= f) (y >>= g) := by
  cases h with
  | ok h => exact hf _ _ h
  | error h => exact .error h

theorem foldlM {q : α → β → Prop} {r : σ → τ → Prop} {f : σ → α → Except ε σ}
    {g : τ → β → Except δ τ} {as : List α} {bs : List β} (h : List.Forall₂ q as bs)
    (hf : ∀ x y a b, r x y → q a b → Alike r s (f x a) (g y b)) {x : σ} {y : τ} (hr : r x y) :
    Alike r s (as.foldlM f x) (bs.foldlM g y) := by
  induction h generalizing x y with
  | nil => exact .ok hr
  | cons hab _ ih =>
    rw [List.foldlM_cons, List.foldlM_cons]
    exact (hf _ _ _ _ hr hab).bind fun _ _ => ih

theorem mapM {q : α → β → Prop} {f : α → Except ε γ} {g : β → Except δ γ} {as : List α}
    {bs : List β} (h : List.Forall₂ q as bs) (hf : ∀ a b, q a b → Alike Eq s (f a) (g b)) :
    Alike Eq s (as.mapM f) (bs.mapM g) := by
  induction h with
  | nil => exact .ok rfl
  | cons hab _ ih =>
    rw [List.mapM_cons, List.mapM_cons]
    refine (hf _ _ hab).bind ?_
    intro c _ hc
    refine ih.bind ?_
    intro cs _ hcs
    exact .ok (by rw [hc, hcs])

end Alike

end SC32
