import SC32.Proofs.Text.Numeral
import SC32.Text.Align
import SC32.Text.Colour

/-!
# Text without its colours

What is left of a text when the sequences that select a rendition are taken out: an escape, a
bracket, one or more digits and the letter `m`. Main statements: such a sequence goes, and text that
has no escape in it stays.
-/
namespace SC32.Text

/-- How much of a text behind an escape belongs to a rendition. -/
def renditionLength? : List Char → Option Nat
  | '[' :: cs =>
    let digits := cs.takeWhile Char.isDigit
    if digits ≠ [] ∧ cs[digits.length]? = some 'm' then some (digits.length + 2) else none
  | _ => none

/-- The text without renditions, from behind its first `skip` characters on. -/
def uncolouredFrom : (skip : Nat) → List Char → List Char
  | _, [] => []
  | k + 1, _ :: cs => uncolouredFrom k cs
  | 0, c :: cs =>
    if c = '\x1b' then
      match renditionLength? cs with
      | some k => uncolouredFrom k cs
      | none => c :: uncolouredFrom 0 cs
    else c :: uncolouredFrom 0 cs

/-- The text without renditions. -/
def uncoloured (cs : List Char) : List Char := uncolouredFrom 0 cs

theorem uncolouredFrom_append (s cs : List Char) :
    uncolouredFrom s.length (s ++ cs) = uncoloured cs := by
  induction s with
  | nil => rfl
  | cons c s ih => exact ih

/-- No rendition begins in the text. -/
def IsPlain (s : List Char) : Prop := '\x1b' ∉ s

instance (s : List Char) : Decidable (IsPlain s) := inferInstanceAs (Decidable (_ ∉ _))

theorem IsPlain.append {s t : List Char} (hs : IsPlain s) (ht : IsPlain t) : IsPlain (s ++ t) := by
  intro h
  exact (List.mem_append.mp h).elim hs ht

theorem uncoloured_append {s : List Char} (h : IsPlain s) (cs : List Char) :
    uncoloured (s ++ cs) = s ++ uncoloured cs := by
  induction s with
  | nil => rfl
  | cons c s ih =>
    rw [IsPlain, List.mem_cons, not_or] at h
    obtain ⟨hc, hs⟩ := h
    have hrest := ih hs
    rw [uncoloured] at hrest
    rw [List.cons_append, uncoloured, uncolouredFrom, if_neg (Ne.symm hc), hrest, List.cons_append]

theorem toList_rendition (n : Nat) :
    (rendition n).toList = '\x1b' :: '[' :: (Nat.toDigits 10 n ++ ['m']) := by
  rw [rendition, String.toList_append, String.toList_append, Decimal.toList_ofNat]
  rfl

theorem uncoloured_rendition (n : Nat) (cs : List Char) :
    uncoloured ((rendition n).toList ++ cs) = uncoloured cs := by
  obtain ⟨hne, hdigits⟩ := Decimal.isRun_toDigits n
  have htake : (Nat.toDigits 10 n ++ 'm' :: cs).takeWhile Char.isDigit = Nat.toDigits 10 n := by
    rw [List.takeWhile_append_of_pos hdigits, List.takeWhile_cons_of_neg (by decide),
      List.append_nil]
  have hlength : renditionLength? ('[' :: (Nat.toDigits 10 n ++ 'm' :: cs)) =
      some ((Nat.toDigits 10 n).length + 2) := by
    simp only [renditionLength?, htake]
    rw [if_pos ⟨hne, by simp⟩]
  have hskip := uncolouredFrom_append ('[' :: (Nat.toDigits 10 n ++ ['m'])) cs
  rw [toList_rendition, List.cons_append, List.cons_append, List.append_assoc,
    List.singleton_append, uncoloured, uncolouredFrom, if_pos rfl, hlength]
  simpa using hskip

theorem IsPlain.alignLeft {s : String} (h : IsPlain s.toList) (width : Nat) :
    IsPlain (alignLeft width s).toList := by
  rw [Text.alignLeft, String.toList_ofList, List.rightpad]
  refine h.append ?_
  intro hmem
  cases List.eq_of_mem_replicate hmem

theorem isPlain_ofInt (n : Int) : IsPlain (Decimal.ofInt n).toList := by
  intro h
  rcases (Decimal.spells_ofInt n).sign_or_isDigit_of_mem h with hc | hc | hc
  · cases hc
  · cases hc
  · cases hc

/-- An escape without digits stays. -/
example : uncoloured "\x1b[31madd\x1b[m".toList = "add\x1b[m".toList := by decide

end SC32.Text
