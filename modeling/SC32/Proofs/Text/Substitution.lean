import SC32.Proofs.Text.Tokens

/-!
# Other tokens in the same places

The tokens of a text are replaced one by one, and the blanks between them stay. The tokens of the new
text are the new ones.
-/
namespace SC32.Text

/-- The text with each token replaced by the next one of `ts`. What `inside` a token is left to be
read has been replaced. -/
def refillFrom (inside : Bool) : (ts : List (List Char)) → List Char → List Char
  | _, [] => []
  | ts, c :: cs =>
    if isBlank c then c :: refillFrom false ts cs
    else if inside then refillFrom true ts cs
    else ts.headD [] ++ refillFrom true ts.tail cs

/-- The text with the tokens `ts` in the places of its own. -/
def refill (ts : List String) (s : String) : String :=
  String.ofList (refillFrom false (ts.map String.toList) s.toList)

/-- A text that begins with a token goes on behind it. -/
theorem words_cons {c : Char} (hc : isBlank c = false) (cs : List Char) :
    words (c :: cs) =
      (c :: cs.takeWhile (! isBlank ·)) :: words (cs.dropWhile (! isBlank ·)) := by
  have htoken : IsToken (c :: cs.takeWhile (! isBlank ·)) :=
    ⟨by simp, List.forall_mem_cons.mpr ⟨hc, not_isBlank_of_all List.all_takeWhile⟩⟩
  have hbreak : Breaks (cs.dropWhile (! isBlank ·)) := by
    intro d hd
    have hhead := List.head?_dropWhile_not (! isBlank ·) cs
    rw [Option.mem_def.mp hd] at hhead
    simpa using hhead
  rw [← words_append htoken hbreak, List.cons_append, List.takeWhile_append_dropWhile]

/-- Outside a token the words are the next ones; inside, the text goes on behind it first. -/
theorem words_refillFrom (cs : List Char) :
    (∀ ts, ts.length = (words cs).length → (∀ t ∈ ts, IsToken t) →
      words (refillFrom false ts cs) = ts) ∧
    ∀ ts, ts.length = (words (cs.dropWhile (! isBlank ·))).length → (∀ t ∈ ts, IsToken t) →
      Breaks (refillFrom true ts cs) ∧ words (refillFrom true ts cs) = ts := by
  induction cs with
  | nil =>
    constructor
    · intro ts hlen _
      exact (List.length_eq_zero_iff.mp hlen).symm
    · intro ts hlen _
      exact ⟨by simp [Breaks, refillFrom], (List.length_eq_zero_iff.mp hlen).symm⟩
  | cons c cs ih =>
    obtain ⟨ihout, ihin⟩ := ih
    cases hc : isBlank c with
    | true =>
      have hout : ∀ ts, ts.length = (words cs).length → (∀ t ∈ ts, IsToken t) →
          words (c :: refillFrom false ts cs) = ts := by
        intro ts hlen ht
        rw [words_blank_cons hc, ihout ts hlen ht]
      constructor
      · intro ts hlen ht
        rw [words_blank_cons hc] at hlen
        simpa [refillFrom, hc] using hout ts hlen ht
      · intro ts hlen ht
        simp only [List.dropWhile_cons, hc, Bool.not_true, Bool.false_eq_true, if_false,
          words_blank_cons hc] at hlen
        simpa [refillFrom, hc, Breaks] using hout ts hlen ht
    | false =>
      constructor
      · intro ts hlen ht
        rw [words_cons hc, List.length_cons] at hlen
        cases ts with
        | nil => cases hlen
        | cons t ts =>
          obtain ⟨htoken, hts⟩ := List.forall_mem_cons.mp ht
          obtain ⟨hbreak, hwords⟩ := ihin ts (Nat.succ.inj hlen) hts
          simp [refillFrom, hc, words_append htoken hbreak, hwords]
      · intro ts hlen ht
        simp only [List.dropWhile_cons, hc, Bool.not_false, if_true] at hlen
        simpa [refillFrom, hc] using ihin ts hlen ht

theorem tokens_refill {ts : List String} {s : String} (hlen : ts.length = (tokens s).length)
    (ht : ∀ t ∈ ts, IsToken t.toList) : tokens (refill ts s) = ts := by
  have hwords := (words_refillFrom s.toList).1 (ts.map String.toList)
    (by simpa [tokens] using hlen) (by simpa using ht)
  rw [tokens, refill, String.toList_ofList, hwords, List.map_map]
  simp [Function.comp_def]

end SC32.Text
