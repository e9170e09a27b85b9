import SC32.Text.Align
import SC32.Text.Blank

/-!
# Tokens, one after another

A token goes up to the next blank, and how many blanks there are between two tokens does not matter.
Main statements: the words of a text that begins with blanks or with a token, and of a text whose
tokens stand in columns; and which texts have given words.
-/
namespace SC32.Text

/-- What may be one token. -/
def IsToken (cs : List Char) : Prop := cs ≠ [] ∧ ∀ c ∈ cs, isBlank c = false

theorem not_isBlank_of_all {cs : List Char} (h : cs.all (! isBlank ·) = true) :
    ∀ c ∈ cs, isBlank c = false := by
  intro c hc
  have hall := List.all_eq_true.mp h c hc
  rwa [Bool.not_eq_true'] at hall

/-- A text that does not go on with the token before it. -/
def Breaks (cs : List Char) : Prop := ∀ c ∈ cs.head?, isBlank c = true

theorem IsToken.ne_empty {s : String} (h : IsToken s.toList) : s ≠ "" := by
  rintro rfl
  exact h.1 rfl

theorem breaks_replicate_append {n : Nat} {cs : List Char} (h : 0 < n ∨ Breaks cs) :
    Breaks (List.replicate n ' ' ++ cs) := by
  cases n with
  | zero =>
    have hcs := h.resolve_left (Nat.lt_irrefl 0)
    exact hcs
  | succ n =>
    rintro c ⟨⟩
    rfl

theorem breaks_space (rest : String) : Breaks (" " ++ rest).toList := by
  intro c hc
  rw [String.toList_append] at hc
  cases hc
  rfl

theorem words_nil : words [] = [] := by simp [words, List.splitOnP_nil]

theorem words_blank_cons {b : Char} (hb : isBlank b = true) (cs : List Char) :
    words (b :: cs) = words cs := by
  have h := List.splitOnP_append_cons [] cs hb
  rw [List.nil_append, List.splitOnP_nil] at h
  rw [words, h, List.filter_append]
  rfl

/-- What breaks off adds its words. -/
theorem words_append_of_breaks (cs : List Char) {ds : List Char} (h : Breaks ds) :
    words (cs ++ ds) = words cs ++ words ds := by
  cases ds with
  | nil => rw [List.append_nil, words_nil, List.append_nil]
  | cons b ds =>
    have hb : isBlank b = true := h b rfl
    rw [words_blank_cons hb, words, List.splitOnP_append_cons cs ds hb, List.filter_append, words,
      words]

/-- A token that ends here is the first one. -/
theorem words_append {s cs : List Char} (hs : IsToken s) (hcs : Breaks cs) :
    words (s ++ cs) = s :: words cs := by
  have hwords : words s = [s] := by
    rw [words, List.splitOnP_eq_singleton hs.2]
    simp [hs.1]
  rw [words_append_of_breaks s hcs, hwords, List.singleton_append]

theorem words_append_of_blank {bs : List Char} (h : ∀ b ∈ bs, isBlank b = true)
    (cs : List Char) : words (bs ++ cs) = words cs := by
  induction bs with
  | nil => rfl
  | cons b bs ih =>
    obtain ⟨hb, hbs⟩ := List.forall_mem_cons.mp h
    rw [List.cons_append, words_blank_cons hb, ih hbs]

theorem isBlank_of_mem_replicate {n : Nat} {c : Char} (h : c ∈ List.replicate n ' ') :
    isBlank c = true := by
  rw [List.eq_of_mem_replicate h]
  rfl

theorem words_replicate_append (n : Nat) (cs : List Char) :
    words (List.replicate n ' ' ++ cs) = words cs :=
  words_append_of_blank (fun _ => isBlank_of_mem_replicate) cs

theorem words_of_blank {bs : List Char} (h : ∀ b ∈ bs, isBlank b = true) : words bs = [] := by
  rw [← List.append_nil bs, words_append_of_blank h, words_nil]

/-- Blanks at the end add no word. -/
theorem words_append_blank (cs : List Char) {bs : List Char} (h : ∀ b ∈ bs, isBlank b = true) :
    words (cs ++ bs) = words cs := by
  have hbreaks : Breaks bs := fun b hb => h b (List.mem_of_head? hb)
  rw [words_append_of_breaks cs hbreaks, words_of_blank h, List.append_nil]

/-! ### Columns -/

theorem toList_alignLeft (width : Nat) (s : String) :
    (alignLeft width s).toList = s.toList ++ List.replicate (width - s.toList.length) ' ' :=
  String.toList_ofList

theorem tokens_of_isToken {s : String} (h : IsToken s.toList) : tokens s = [s] := by
  have hwords : words (s.toList ++ []) = s.toList :: words [] :=
    words_append h (by rintro c ⟨⟩)
  rw [List.append_nil] at hwords
  rw [tokens, hwords, List.map_cons, String.ofList_toList]
  rfl

/-- A token that ends here is the first one. -/
theorem tokens_append {s rest : String} (hs : IsToken s.toList) (h : Breaks rest.toList) :
    tokens (s ++ rest) = s :: tokens rest := by
  rw [tokens, String.toList_append, words_append hs h, List.map_cons, String.ofList_toList, tokens]

theorem tokens_space (rest : String) : tokens (" " ++ rest) = tokens rest := by
  rw [tokens, String.toList_append]
  exact congrArg _ (words_blank_cons rfl rest.toList)

/-- A blank keeps what is in front of it and what is behind it apart. -/
theorem tokens_append_space (s rest : String) :
    tokens (s ++ " " ++ rest) = tokens s ++ tokens rest := by
  rw [String.append_assoc, tokens, String.toList_append,
    words_append_of_breaks _ (breaks_space rest), List.map_append]
  exact congrArg _ (tokens_space rest)

/-- A token in a column, if the column is wider or something else ends the token. -/
theorem tokens_alignLeft {width : Nat} {s rest : String} (hs : IsToken s.toList)
    (h : s.toList.length < width ∨ Breaks rest.toList) :
    tokens (alignLeft width s ++ rest) = s :: tokens rest := by
  have hbreak : Breaks (List.replicate (width - s.toList.length) ' ' ++ rest.toList) :=
    breaks_replicate_append (h.imp_left Nat.sub_pos_of_lt)
  rw [tokens, String.toList_append, toList_alignLeft, List.append_assoc, words_append hs hbreak,
    words_replicate_append, List.map_cons, String.ofList_toList, tokens]

/-- The token of a column that may be empty. -/
theorem tokens_alignLeft_of_breaks {width : Nat} {s rest : String}
    (hs : s = "" ∨ IsToken s.toList) (h : Breaks rest.toList) :
    tokens (alignLeft width s ++ rest) = [s].filter (· ≠ "") ++ tokens rest := by
  rcases hs with rfl | hs
  · rw [tokens, String.toList_append, toList_alignLeft, String.toList_empty, List.nil_append,
      words_replicate_append]
    rfl
  · have hkeep : [s].filter (· ≠ "") = [s] := by simp [hs.ne_empty]
    rw [tokens_alignLeft hs (.inr h), hkeep, List.singleton_append]

/-! ### The tokens of a text -/

/-- The text is these tokens with blanks around them, and each token goes up to a blank or to the
end. -/
inductive Tokenized : List Char → List (List Char) → Prop where
  | blank {bs : List Char} (hbs : ∀ b ∈ bs, isBlank b = true) : Tokenized bs []
  | token {bs t rest : List Char} {ts : List (List Char)} (hbs : ∀ b ∈ bs, isBlank b = true)
    (ht : IsToken t) (hrest : Breaks rest) (h : Tokenized rest ts) :
    Tokenized (bs ++ (t ++ rest)) (t :: ts)

theorem words_of_tokenized {cs : List Char} {ts : List (List Char)} (h : Tokenized cs ts) :
    words cs = ts := by
  induction h with
  | blank hbs => exact words_of_blank hbs
  | token hbs ht hrest _ ih => rw [words_append_of_blank hbs, words_append ht hrest, ih]

/-- One more character in front is a blank more, or the first of a token. -/
theorem Tokenized.exists_cons {cs : List Char} {ts : List (List Char)} (h : Tokenized cs ts)
    (c : Char) : ∃ us, Tokenized (c :: cs) us := by
  cases hc : isBlank c with
  | true =>
    have hcons : ∀ bs : List Char, (∀ b ∈ bs, isBlank b = true) →
        ∀ b ∈ c :: bs, isBlank b = true := fun bs hbs => List.forall_mem_cons.mpr ⟨hc, hbs⟩
    cases h with
    | blank hbs => exact ⟨_, .blank (hcons _ hbs)⟩
    | token hbs ht hrest h => exact ⟨_, .token (hcons _ hbs) ht hrest h⟩
  | false =>
    have hsingle : IsToken [c] := ⟨List.cons_ne_nil c [], List.forall_mem_singleton.mpr hc⟩
    have hnil : ∀ b ∈ ([] : List Char), isBlank b = true := List.forall_mem_nil _
    cases h with
    | blank hbs =>
      have hbreaks : Breaks cs := fun b hb => hbs b (List.mem_of_head? hb)
      exact ⟨_, .token hnil hsingle hbreaks (.blank hbs)⟩
    | @token bs t rest ts hbs ht hrest h =>
      cases bs with
      | nil =>
        have hlonger : IsToken (c :: t) :=
          ⟨List.cons_ne_nil c t, List.forall_mem_cons.mpr ⟨hc, ht.2⟩⟩
        exact ⟨_, .token hnil hlonger hrest h⟩
      | cons b bs =>
        have hbreaks : Breaks (b :: bs ++ (t ++ rest)) := by
          rintro _ ⟨⟩
          exact hbs b List.mem_cons_self
        exact ⟨_, .token hnil hsingle hbreaks (.token hbs ht hrest h)⟩

theorem exists_tokenized (cs : List Char) : ∃ ts, Tokenized cs ts := by
  induction cs with
  | nil => exact ⟨[], .blank (List.forall_mem_nil _)⟩
  | cons c cs ih =>
    obtain ⟨ts, h⟩ := ih
    exact h.exists_cons c

/-- A text is cut into tokens in one way only. -/
theorem words_eq_iff (cs : List Char) (ts : List (List Char)) :
    words cs = ts ↔ Tokenized cs ts := by
  constructor
  · rintro rfl
    obtain ⟨ts, h⟩ := exists_tokenized cs
    rw [words_of_tokenized h]
    exact h
  · exact words_of_tokenized

theorem tokens_eq_iff (s : String) (ts : List String) :
    tokens s = ts ↔ Tokenized s.toList (ts.map String.toList) := by
  have hlist : (tokens s).map String.toList = words s.toList := by
    simp [tokens, Function.comp_def]
  rw [← words_eq_iff, ← hlist]
  exact (List.map_inj_right fun _ _ h => String.toList_inj.mp h).symm

theorem tokens_eq_nil_iff (s : String) : tokens s = [] ↔ ∀ c ∈ s.toList, isBlank c = true := by
  rw [tokens_eq_iff, List.map_nil]
  generalize s.toList = cs
  constructor
  · intro h
    cases h with
    | blank hbs => exact hbs
  · exact .blank

theorem not_isBlank_of_mem_splitOnP {cs l : List Char} (h : l ∈ cs.splitOnP isBlank) :
    ∀ c ∈ l, isBlank c = false := by
  induction cs generalizing l with
  | nil =>
    rw [List.splitOnP_nil, List.mem_singleton] at h
    rw [h]
    exact List.forall_mem_nil _
  | cons c cs ih =>
    obtain ⟨x, xs, hx⟩ := List.exists_cons_of_ne_nil (List.splitOnP_ne_nil isBlank cs)
    rw [List.splitOnP_cons_eq_if_modifyHead, hx] at h
    rw [hx] at ih
    cases hc : isBlank c with
    | true =>
      rw [hc, if_pos rfl, List.mem_cons] at h
      rcases h with rfl | h
      · exact List.forall_mem_nil _
      · exact ih h
    | false =>
      rw [hc, if_neg Bool.false_ne_true, List.modifyHead_cons, List.mem_cons] at h
      rcases h with rfl | h
      · exact List.forall_mem_cons.mpr ⟨hc, ih List.mem_cons_self⟩
      · exact ih (List.mem_cons_of_mem x h)

theorem isToken_of_mem_tokens {s t : String} (h : t ∈ tokens s) : IsToken t.toList := by
  obtain ⟨cs, hcs, rfl⟩ := List.mem_map.mp h
  obtain ⟨hmem, hne⟩ := List.mem_filter.mp hcs
  rw [String.toList_ofList]
  exact ⟨by simpa using hne, not_isBlank_of_mem_splitOnP hmem⟩

end SC32.Text
