import SC32.Text.Blank
import SC32.Text.Lines

/-!
# Lines and trimming, piece by piece

A text can be cut behind any line feed: its lines are those of the two parts. A line of characters
that are not blank comes back as it is, and trimming does not change it. Main statements: which
lines a text has, and what trimming leaves of it.
-/
namespace SC32.Text

/-! ### Lines -/

theorem segments_newline (cs : List Char) : segments ('\n' :: cs) = ['\n'] :: segments cs := rfl

theorem segments_cons {c : Char} (hc : c ≠ '\n') {cs l : List Char} {ls : List (List Char)}
    (h : segments cs = l :: ls) : segments (c :: cs) = (c :: l) :: ls := by
  rw [segments, List.foldr_cons, ← segments, if_neg hc, h]

theorem exists_segments_cons {cs : List Char} (h : cs ≠ []) : ∃ l ls, segments cs = l :: ls := by
  cases hs : segments cs with
  | nil =>
    have hf := flatten_segments cs
    rw [hs] at hf
    exact absurd hf.symm h
  | cons l ls => exact ⟨l, ls, rfl⟩

/-- Behind a line feed a new line begins, whatever stands before it. -/
theorem segments_append (cs ds : List Char) :
    segments (cs ++ '\n' :: ds) = segments (cs ++ ['\n']) ++ segments ds := by
  induction cs with
  | nil => rfl
  | cons c cs ih =>
    by_cases hc : c = '\n'
    · subst hc
      rw [List.cons_append, List.cons_append, segments_newline, segments_newline, ih,
        List.cons_append]
    · have hne : cs ++ ['\n'] ≠ [] := by simp
      obtain ⟨l, ls, hl⟩ := exists_segments_cons hne
      rw [hl, List.cons_append] at ih
      rw [List.cons_append, List.cons_append, segments_cons hc ih, segments_cons hc hl,
        List.cons_append]

/-- A line feed at the end is the end of the only line. -/
theorem segments_line {cs : List Char} (h : '\n' ∉ cs) :
    segments (cs ++ ['\n']) = [cs ++ ['\n']] := by
  induction cs with
  | nil => rfl
  | cons c cs ih =>
    have hc : c ≠ '\n' := fun hc => h (hc ▸ List.mem_cons_self)
    exact segments_cons hc (ih fun hcs => h (List.mem_cons_of_mem c hcs))

theorem segments_of_not_mem {cs : List Char} (hne : cs ≠ []) (h : '\n' ∉ cs) :
    segments cs = [cs] := by
  induction cs with
  | nil => exact absurd rfl hne
  | cons c cs ih =>
    have hc : c ≠ '\n' := fun hc => h (hc ▸ List.mem_cons_self)
    cases cs with
    | nil => rw [segments, List.foldr_cons, if_neg hc, List.foldr_nil]
    | cons d cs =>
      exact segments_cons hc (ih (List.cons_ne_nil d cs) fun hcs => h (List.mem_cons_of_mem c hcs))

/-- What stands on the last line only is cut with it. -/
theorem exists_segments_append (cs : List Char) :
    ∃ ls l, ∀ e, segments e = [e] → segments (cs ++ e) = ls ++ [l ++ e] := by
  induction cs with
  | nil => exact ⟨[], [], fun e he => he⟩
  | cons c cs ih =>
    obtain ⟨ls, l, h⟩ := ih
    by_cases hc : c = '\n'
    · subst hc
      refine ⟨['\n'] :: ls, l, ?_⟩
      intro e he
      rw [List.cons_append, segments_newline, h e he, List.cons_append]
    · cases ls with
      | nil => exact ⟨[], c :: l, fun e he => segments_cons hc (h e he)⟩
      | cons k ls => exact ⟨(c :: k) :: ls, l, fun e he => segments_cons hc (h e he)⟩

/-- Only a carriage return would go with the line feed. -/
theorem unterminated_newline {l : List Char} (h : l.getLast? ≠ some '\r') :
    unterminated (l ++ ['\n']) = l := by
  have hrev : (l ++ ['\n']).reverse = '\n' :: l.reverse := by simp
  unfold unterminated
  rw [hrev]
  split
  · next r he =>
    rw [List.cons.injEq] at he
    rw [← List.head?_reverse, he.2] at h
    exact absurd rfl h
  · next r _ he =>
    rw [List.cons.injEq] at he
    rw [← he.2, List.reverse_reverse]
  · next hne => exact absurd rfl (hne _)

theorem unterminated_carriage (l : List Char) : unterminated (l ++ ['\r', '\n']) = l := by
  simp [unterminated]

theorem unterminated_of_not_mem {l : List Char} (h : '\n' ∉ l) : unterminated l = l := by
  have hrev : '\n' ∉ l.reverse := by rwa [List.mem_reverse]
  unfold unterminated
  split
  · next he =>
    rw [he] at hrev
    exact absurd List.mem_cons_self hrev
  · next he =>
    rw [he] at hrev
    exact absurd List.mem_cons_self hrev
  · rfl

theorem lines_append (s t : String) : lines (s ++ "\n" ++ t) = lines (s ++ "\n") ++ lines t := by
  have hl : (s ++ "\n" ++ t).toList = s.toList ++ '\n' :: t.toList := by simp
  have hr : (s ++ "\n").toList = s.toList ++ ['\n'] := by simp
  rw [lines, lines, lines, hl, hr, segments_append, List.map_append]

theorem lines_line {s : String} (hn : '\n' ∉ s.toList) (hr : '\r' ∉ s.toList) :
    lines (s ++ "\n") = [s] := by
  have hl : (s ++ "\n").toList = s.toList ++ ['\n'] := by simp
  have hlast : s.toList.getLast? ≠ some '\r' := fun h => hr (List.mem_of_getLast? h)
  rw [lines, hl, segments_line hn, List.map_singleton, unterminated_newline hlast,
    String.ofList_toList]

/-! ### Lines that are written -/

/-- Nothing in the text ends a line, or goes with the end of one. -/
def OneLine (s : String) : Prop := '\n' ∉ s.toList ∧ '\r' ∉ s.toList

instance (s : String) : Decidable (OneLine s) := inferInstanceAs (Decidable (_ ∧ _))

theorem OneLine.append {s t : String} (hs : OneLine s) (ht : OneLine t) : OneLine (s ++ t) := by
  simp only [OneLine, String.toList_append, List.mem_append, not_or]
  exact ⟨⟨hs.1, ht.1⟩, hs.2, ht.2⟩

theorem oneLine_of_forall_not_isBlank {s : String} (h : ∀ c ∈ s.toList, isBlank c = false) :
    OneLine s := by
  have hblank : ∀ c, isBlank c = true → c ∉ s.toList := by
    intro c hc hmem
    rw [h c hmem] at hc
    cases hc
  exact ⟨hblank '\n' rfl, hblank '\r' rfl⟩

/-- Lines that are written one under the other come back as they are. -/
theorem lines_join {ls : List String} (h : ∀ l ∈ ls, OneLine l) :
    lines (String.join (ls.map (· ++ "\n"))) = ls := by
  induction ls with
  | nil => rfl
  | cons l ls ih =>
    obtain ⟨hl, hls⟩ := List.forall_mem_cons.mp h
    have hjoin : String.join ((l :: ls).map (· ++ "\n")) =
        l ++ "\n" ++ String.join (ls.map (· ++ "\n")) := by simp
    rw [hjoin, lines_append, lines_line hl.1 hl.2, ih hls, List.singleton_append]

/-! ### The lines of a text -/

/-- The text is these lines, each ended by a line feed, with or without a carriage return before it.
The last one may go up to the end of the text. -/
inductive Lined : List Char → List (List Char) → Prop where
  | empty : Lined [] []
  | last {l : List Char} (hne : l ≠ []) (hl : '\n' ∉ l) : Lined l [l]
  | newline {l cs : List Char} {ls : List (List Char)} (hl : '\n' ∉ l)
    (hr : l.getLast? ≠ some '\r') (h : Lined cs ls) : Lined (l ++ '\n' :: cs) (l :: ls)
  | carriage {l cs : List Char} {ls : List (List Char)} (hl : '\n' ∉ l) (h : Lined cs ls) :
    Lined (l ++ '\r' :: '\n' :: cs) (l :: ls)

theorem map_segments_of_lined {cs : List Char} {ls : List (List Char)} (h : Lined cs ls) :
    (segments cs).map unterminated = ls := by
  induction h with
  | empty => rfl
  | last hne hl => rw [segments_of_not_mem hne hl, List.map_singleton, unterminated_of_not_mem hl]
  | newline hl hr _ ih =>
    rw [segments_append, segments_line hl, List.map_append, List.map_singleton,
      unterminated_newline hr, ih, List.singleton_append]
  | @carriage l cs ls hl _ ih =>
    have hl' : '\n' ∉ l ++ ['\r'] := by simp [hl]
    have hcut : l ++ '\r' :: '\n' :: cs = (l ++ ['\r']) ++ '\n' :: cs := by simp
    have hline : (l ++ ['\r']) ++ ['\n'] = l ++ ['\r', '\n'] := by simp
    rw [hcut, segments_append, segments_line hl', List.map_append, List.map_singleton, hline,
      unterminated_carriage, ih, List.singleton_append]

/-- One more character in front is an empty line, or belongs to the first line. -/
theorem Lined.exists_cons {cs : List Char} {ls : List (List Char)} (h : Lined cs ls) (c : Char) :
    ∃ ks, Lined (c :: cs) ks := by
  by_cases hc : c = '\n'
  · subst hc
    exact ⟨[] :: ls, .newline (l := []) List.not_mem_nil (by simp) h⟩
  have hcons : ∀ {l : List Char}, '\n' ∉ l → '\n' ∉ c :: l := by
    intro l hl
    rw [List.mem_cons, not_or]
    exact ⟨Ne.symm hc, hl⟩
  cases h with
  | empty => exact ⟨[[c]], .last (List.cons_ne_nil c []) (hcons List.not_mem_nil)⟩
  | last hne hl => exact ⟨[c :: cs], .last (List.cons_ne_nil c cs) (hcons hl)⟩
  | @newline l cs ls hl hr h =>
    by_cases hlast : (c :: l).getLast? = some '\r'
    · -- An empty line gets a carriage return before its line feed, and stays empty.
      cases l with
      | nil =>
        obtain rfl : c = '\r' := by simpa using hlast
        exact ⟨[] :: ls, .carriage (l := []) List.not_mem_nil h⟩
      | cons d l => exact absurd hlast hr
    · exact ⟨(c :: l) :: ls, .newline (l := c :: l) (hcons hl) hlast h⟩
  | @carriage l cs ls hl h => exact ⟨(c :: l) :: ls, .carriage (l := c :: l) (hcons hl) h⟩

theorem exists_lined (cs : List Char) : ∃ ls, Lined cs ls := by
  induction cs with
  | nil => exact ⟨[], .empty⟩
  | cons c cs ih =>
    obtain ⟨ls, h⟩ := ih
    exact h.exists_cons c

/-- A text is cut into lines in one way only. -/
theorem lines_eq_iff (s : String) (ls : List String) :
    lines s = ls ↔ Lined s.toList (ls.map String.toList) := by
  have hlist : (lines s).map String.toList = (segments s.toList).map unterminated := by
    simp [lines, Function.comp_def]
  constructor
  · rintro rfl
    obtain ⟨ks, h⟩ := exists_lined s.toList
    rw [hlist, map_segments_of_lined h]
    exact h
  · intro h
    rw [map_segments_of_lined h] at hlist
    exact (List.map_inj_right fun _ _ h => String.toList_inj.mp h).mp hlist

/-! ### Trimming -/

theorem not_isBlank_of_isDigit {c : Char} (h : c.isDigit) : isBlank c = false := by
  have hd : 48 ≤ c.toNat ∧ c.toNat ≤ 57 := by
    simpa [Char.isDigit, UInt32.le_iff_toNat_le] using h
  simp only [isBlank, Bool.or_eq_false_iff, Bool.and_eq_false_iff, decide_eq_false_iff_not,
    beq_eq_false_iff_ne]
  omega

theorem dropWhile_of_forall_not_isBlank {cs : List Char} (h : ∀ c ∈ cs, isBlank c = false) :
    cs.dropWhile isBlank = cs := by
  cases cs with
  | nil => rfl
  | cons c cs => rw [List.dropWhile_cons_of_neg (by simp [h c])]

theorem trim_of_forall_not_isBlank {s : String} (h : ∀ c ∈ s.toList, isBlank c = false) :
    trim s = s := by
  have hrev : ∀ c ∈ s.toList.reverse, isBlank c = false := by
    intro c hc
    exact h c (List.mem_reverse.mp hc)
  rw [trim, strip, dropWhile_of_forall_not_isBlank h, dropWhile_of_forall_not_isBlank hrev,
    List.reverse_reverse, String.ofList_toList]

/-- The text is `s` between blanks, and `s` neither begins nor ends with one. -/
def Trimmed (cs s : List Char) : Prop :=
  ∃ before behind, cs = before ++ (s ++ behind) ∧
    (∀ b ∈ before, isBlank b = true) ∧ (∀ b ∈ behind, isBlank b = true) ∧
    (∀ c ∈ s.head?, isBlank c = false) ∧ ∀ c ∈ s.getLast?, isBlank c = false

/-- Blanks are taken off up to the first character that is none. -/
theorem dropWhile_append_of_blank {bs cs : List Char} (hb : ∀ b ∈ bs, isBlank b = true)
    (hc : ∀ c ∈ cs.head?, isBlank c = false) : (bs ++ cs).dropWhile isBlank = cs := by
  rw [List.dropWhile_append_of_pos hb]
  cases cs with
  | nil => rfl
  | cons c cs =>
    have hblank : isBlank c = false := hc c rfl
    rw [List.dropWhile_cons_of_neg (by simp [hblank])]

theorem not_isBlank_of_head?_dropWhile (cs : List Char) :
    ∀ c ∈ (cs.dropWhile isBlank).head?, isBlank c = false := by
  intro c hc
  have hhead := List.head?_dropWhile_not isBlank cs
  rw [Option.mem_def.mp hc] at hhead
  exact hhead

theorem isBlank_of_mem_takeWhile (cs : List Char) :
    ∀ c ∈ cs.takeWhile isBlank, isBlank c = true :=
  List.all_eq_true.mp List.all_takeWhile

theorem trimmed_strip (cs : List Char) : Trimmed cs (strip cs) := by
  have hfront := (List.takeWhile_append_dropWhile (p := isBlank) (l := cs)).symm
  have hback := congrArg List.reverse
    (List.takeWhile_append_dropWhile (p := isBlank) (l := (cs.dropWhile isBlank).reverse)).symm
  rw [List.reverse_reverse, List.reverse_append, ← strip] at hback
  refine ⟨_, _, hback ▸ hfront, isBlank_of_mem_takeWhile cs, ?_, ?_, ?_⟩
  · intro b hb
    exact isBlank_of_mem_takeWhile _ b (List.mem_reverse.mp hb)
  · intro c hc
    apply not_isBlank_of_head?_dropWhile cs c
    rw [hback, List.head?_append, Option.mem_def.mp hc]
    rfl
  · intro c hc
    rw [strip, List.getLast?_reverse] at hc
    exact not_isBlank_of_head?_dropWhile _ c hc

/-- There is one way only to trim a text. -/
theorem strip_eq_iff (cs s : List Char) : strip cs = s ↔ Trimmed cs s := by
  constructor
  · rintro rfl
    exact trimmed_strip cs
  · rintro ⟨before, behind, rfl, hbefore, hbehind, hhead, hlast⟩
    cases s with
    | nil =>
      have hall : ∀ b ∈ before ++ behind, isBlank b = true := by
        intro b hb
        exact (List.mem_append.mp hb).elim (hbefore b) (hbehind b)
      have hdrop : (before ++ behind ++ []).dropWhile isBlank = [] :=
        dropWhile_append_of_blank hall (by simp)
      rw [List.append_nil] at hdrop
      rw [strip, List.nil_append, hdrop]
      rfl
    | cons c s =>
      have hbegin : ∀ d ∈ (c :: s ++ behind).head?, isBlank d = false := hhead
      have hrev : ∀ b ∈ behind.reverse, isBlank b = true :=
        fun b hb => hbehind b (List.mem_reverse.mp hb)
      have hend : ∀ d ∈ (c :: s).reverse.head?, isBlank d = false := by
        intro d hd
        rw [List.head?_reverse] at hd
        exact hlast d hd
      rw [strip, dropWhile_append_of_blank hbefore hbegin, List.reverse_append,
        dropWhile_append_of_blank hrev hend, List.reverse_reverse]

end SC32.Text
