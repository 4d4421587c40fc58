import DesignDoc.Proofs.Text.Spacing
import DesignDoc.Proofs.Tree.CleanText

/-! Cleaned text is clean for good. No two slashes survive the first pass, and the places where the
second takes out a comment do not make new ones: what stands before a comment does not end with a
slash, and what follows it does not begin with one. So no mark of a comment comes together there,
the only opening mark that is left is never closed, and collapsing blanks joins nothing. The texts
that cleaning leaves alone are exactly those that it gives. -/

namespace DesignDoc.Tree

/-! ### The first pass -/

/-- A mark of two characters stands at the front of a text or behind its first character. -/
theorem mark_infix_cons {x y c : Char} {s : List Char} :
    [x, y] <:+: c :: s ↔ c = x ∧ s.head? = some y ∨ [x, y] <:+: s := by
  rw [List.infix_cons_iff, List.cons_prefix_cons, List.head?_eq_some_iff,
    List.prefix_iff_exists_eq_append]
  simp [eq_comm]

/-- No two slashes survive. -/
theorem not_infix_dropLineComments (f : Bool) (s : List Char) :
    ¬ ['/', '/'] <:+: dropLineComments f s := by
  fun_induction dropLineComments f s with
  | case1 f => simp
  | case2 s ih => simpa [mark_infix_cons] using ih
  | case3 c s hc ih => exact ih
  | case4 s ih => exact ih
  | case5 c s hc ih =>
    rw [mark_infix_cons]
    rintro (⟨rfl, hs⟩ | hs)
    · obtain ⟨r, rfl⟩ := List.head?_eq_some_iff.mp (head?_of_dropLineComments hs)
      exact hc r rfl rfl
    · exact ih hs

/-- A text without two slashes has no line comment. -/
theorem dropLineComments_eq_self {s : List Char} (h : ¬ ['/', '/'] <:+: s) :
    dropLineComments false s = s := by
  induction s with
  | nil => rfl
  | cons c s ih =>
    rw [mark_infix_cons, not_or] at h
    rw [dropLineComments_cons fun hc hs => h.1 ⟨hc, hs⟩, ih h.2]

/-! ### Texts by their block comments -/

/-- A text up to its first closing mark. -/
theorem exists_closing (s : List Char) :
    ¬ ['*', '/'] <:+: s ∨ ∃ b r, ¬ ['*', '/'] <:+: b ∧ s = b ++ '*' :: '/' :: r := by
  induction s with
  | nil => exact .inl (by simp)
  | cons c s ih =>
    by_cases hp : ['*', '/'] <+: c :: s
    · obtain ⟨r, hr⟩ := hp
      exact .inr ⟨[], r, by simp, hr.symm⟩
    · rcases ih with hs | ⟨b, r, hb, rfl⟩
      · exact .inl fun h => (List.infix_cons_iff.mp h).elim hp hs
      · refine .inr ⟨c :: b, r, fun h => (List.infix_cons_iff.mp h).elim (fun hc => hp ?_) hb, rfl⟩
        exact hc.trans (List.prefix_append (c :: b) _)

/-- Induction on a text by its block comments: the next character, a comment that is closed, or one
that is not. -/
@[elab_as_elim]
theorem blockInduction {motive : List Char → Prop} (nil : motive [])
    (char : ∀ c s, ¬ (c = '/' ∧ s.head? = some '*') → motive s → motive (c :: s))
    (closed : ∀ b r, ¬ ['*', '/'] <:+: b → motive r →
      motive ('/' :: '*' :: (b ++ '*' :: '/' :: r)))
    (unclosed : ∀ s, ¬ ['*', '/'] <:+: s → motive ('/' :: '*' :: s)) (s : List Char) :
    motive s := by
  induction hn : s.length using Nat.strong_induction_on generalizing s with
  | h n ih =>
    cases s with
    | nil => exact nil
    | cons c s =>
      by_cases hp : c = '/' ∧ s.head? = some '*'
      · obtain ⟨rfl, hs⟩ := hp
        obtain ⟨t, rfl⟩ := List.head?_eq_some_iff.mp hs
        rcases exists_closing t with hu | ⟨b, r, hb, rfl⟩
        · exact unclosed t hu
        · refine closed b r hb (ih r.length ?_ r rfl)
          simp only [List.length_append, List.length_cons] at hn
          omega
      · exact char c s hp (ih s.length (by simp [← hn]) s rfl)

theorem dropBlockComments_char {c : Char} {s : List Char}
    (h : ¬ (c = '/' ∧ s.head? = some '*')) :
    dropBlockComments none (c :: s) = c :: dropBlockComments none s := by
  rw [dropBlockComments]
  rintro t rfl rfl
  exact h ⟨rfl, rfl⟩

theorem dropBlockComments_closed {b : List Char} (hb : ¬ ['*', '/'] <:+: b) (r : List Char) :
    dropBlockComments none ('/' :: '*' :: (b ++ '*' :: '/' :: r)) = dropBlockComments none r := by
  rw [dropBlockComments, dropBlockComments_close _ hb]

theorem dropBlockComments_opened {s : List Char} (hs : ¬ ['*', '/'] <:+: s) :
    dropBlockComments none ('/' :: '*' :: s) = '/' :: '*' :: s := by
  rw [dropBlockComments, dropBlockComments_unclosed _ hs]
  rfl

/-! ### The second pass -/

/-- A block comment that is closed stands in a text. -/
def HasBlock (s : List Char) : Prop := ∃ a b c, s = a ++ '/' :: '*' :: (b ++ '*' :: '/' :: c)

/-- The opening mark stands before a cut and the closing mark behind it. -/
theorem hasBlock_iff_exists_cut {s : List Char} :
    HasBlock s ↔ ∃ p q, s = p ++ q ∧ ['/', '*'] <:+: p ∧ ['*', '/'] <:+: q := by
  constructor
  · rintro ⟨a, b, c, rfl⟩
    exact ⟨a ++ ['/', '*'], b ++ '*' :: '/' :: c, by simp, ⟨a, [], by simp⟩, ⟨b, c, by simp⟩⟩
  · rintro ⟨p, q, rfl, ⟨a, a', rfl⟩, ⟨c', c, rfl⟩⟩
    exact ⟨a, a' ++ c', c, by simp⟩

theorem HasBlock.of_cons {c : Char} {s : List Char} (hp : ¬ (c = '/' ∧ s.head? = some '*'))
    (h : HasBlock (c :: s)) : HasBlock s := by
  obtain ⟨a, b, r, hs⟩ := h
  cases a with
  | nil =>
    obtain ⟨rfl, rfl⟩ := List.cons.inj hs
    exact absurd ⟨rfl, rfl⟩ hp
  | cons d a => exact ⟨a, b, r, (List.cons.inj hs).2⟩

theorem not_hasBlock_of_unclosed {s : List Char} (hs : ¬ ['*', '/'] <:+: s) :
    ¬ HasBlock ('/' :: '*' :: s) := by
  rintro ⟨a, b, r, h⟩
  refine hs ?_
  -- the closing mark comes after two characters at least
  rcases a with _ | ⟨_, _ | ⟨_, a⟩⟩
  · exact ⟨b, r, by simpa using h.symm⟩
  · simp at h
  · exact ⟨a ++ '/' :: '*' :: b, r, by simpa using (List.cons.inj (List.cons.inj h).2).2.symm⟩

/-- A text without a closed comment is left alone. -/
theorem dropBlockComments_eq_self {s : List Char} (h : ¬ HasBlock s) :
    dropBlockComments none s = s := by
  induction s using blockInduction with
  | nil => rfl
  | char c s hp ih =>
    rw [dropBlockComments_char hp, ih]
    rintro ⟨a, b, r, rfl⟩
    exact h ⟨c :: a, b, r, rfl⟩
  | closed b r hb ih => exact absurd ⟨[], b, r, rfl⟩ h
  | unclosed s hs => exact dropBlockComments_opened hs

/-- What does not begin with a slash begins as before. -/
theorem head?_dropBlockComments {s : List Char} (h : s.head? ≠ some '/') :
    (dropBlockComments none s).head? = s.head? := by
  cases s with
  | nil => rfl
  | cons c s =>
    have hc : c ≠ '/' := by simpa using h
    rw [dropBlockComments_cons hc, List.head?_cons, List.head?_cons]

/-- What follows a comment has no two slashes if the text has none. -/
theorem not_infix_of_closed {b r : List Char}
    (h : ¬ ['/', '/'] <:+: '/' :: '*' :: (b ++ '*' :: '/' :: r)) : ¬ ['/', '/'] <:+: r :=
  fun hr => h (hr.trans ⟨'/' :: '*' :: (b ++ ['*', '/']), [], by simp⟩)

/-- Where a comment was taken out, no two slashes come together. -/
theorem not_infix_dropBlockComments {s : List Char} (h : ¬ ['/', '/'] <:+: s) :
    ¬ ['/', '/'] <:+: dropBlockComments none s := by
  induction s using blockInduction with
  | nil => exact h
  | char c s hp ih =>
    rw [mark_infix_cons, not_or] at h
    rw [dropBlockComments_char hp, mark_infix_cons]
    rintro (⟨hc, hs⟩ | hs)
    · have hn : s.head? ≠ some '/' := fun hs => h.1 ⟨hc, hs⟩
      exact hn (head?_dropBlockComments hn ▸ hs)
    · exact ih h.2 hs
  | closed b r hb ih =>
    rw [dropBlockComments_closed hb]
    exact ih (not_infix_of_closed h)
  | unclosed s hs => rwa [dropBlockComments_opened hs]

/-- Where a comment was taken out, no opening mark comes together, and one that was there before is
never closed. -/
theorem not_hasBlock_dropBlockComments {s : List Char} (h : ¬ ['/', '/'] <:+: s) :
    ¬ HasBlock (dropBlockComments none s) := by
  induction s using blockInduction with
  | nil =>
    rintro ⟨a, b, c, hs⟩
    simp [dropBlockComments] at hs
  | char c s hp ih =>
    rw [mark_infix_cons, not_or] at h
    rw [dropBlockComments_char hp]
    intro hb
    refine ih h.2 (hb.of_cons ?_)
    rintro ⟨hc, hs⟩
    rw [head?_dropBlockComments fun hs => h.1 ⟨hc, hs⟩] at hs
    exact hp ⟨hc, hs⟩
  | closed b r hb ih =>
    rw [dropBlockComments_closed hb]
    exact ih (not_infix_of_closed h)
  | unclosed s hs =>
    rw [dropBlockComments_opened hs]
    exact not_hasBlock_of_unclosed hs

/-! ### Clean texts -/

/-- No comment is left, and every blank is a single space inside the text. -/
structure Clean (s : List Char) : Prop where
  no_line : ¬ ['/', '/'] <:+: s
  no_block : ¬ HasBlock s
  starts : ∀ c ∈ s.head?, Text.isBlank c = false
  ends : ∀ c ∈ s.getLast?, Text.isBlank c = false
  spaced : Text.Spaced s

theorem Clean.cleanText_eq {s : List Char} (h : Clean s) : cleanText s = String.ofList s := by
  rw [cleanText, dropLineComments_eq_self h.no_line, dropBlockComments_eq_self h.no_block,
    Text.collapsed_of_spaced h.spaced]

/-- The marks of comments are not blank. -/
theorem isBlank_of_mem_mark {u : List Char} (hu : ∀ c ∈ u, c = '/' ∨ c = '*') :
    ∀ c ∈ u, Text.isBlank c = false := by
  intro c hc
  rcases hu c hc with rfl | rfl <;> decide

theorem HasBlock.of_collapsed {s : List Char} (h : HasBlock (Text.collapsed s).toList) :
    HasBlock s := by
  obtain ⟨p, q, hpq, hp, hq⟩ := hasBlock_iff_exists_cut.mp h
  obtain ⟨p', q', rfl, hcut⟩ := Text.exists_cut_of_collapsed hpq
  exact hasBlock_iff_exists_cut.mpr ⟨p', q', rfl, (hcut _ (isBlank_of_mem_mark (by simp))).1 hp,
    (hcut _ (isBlank_of_mem_mark (by simp))).2 hq⟩

theorem clean_cleanText (s : List Char) : Clean (cleanText s).toList := by
  have hspaced := Text.spaced_collapsed (dropBlockComments none (dropLineComments false s))
  have hline := not_infix_dropLineComments false s
  refine ⟨fun h => ?_, fun h => ?_, fun c hc => ?_, fun c hc => ?_, hspaced⟩
  · exact not_infix_dropBlockComments hline
      (Text.infix_of_infix_collapsed (isBlank_of_mem_mark (by simp)) h)
  · exact not_hasBlock_dropBlockComments hline h.of_collapsed
  · exact hspaced.isBlank_head? c hc
  · exact hspaced.isBlank_getLast? c hc

/-- Cleaned text is clean, cleaning it again changes nothing, and the clean texts are all that
cleaning does not change. -/
theorem cleanText_stable (s : List Char) :
    Clean (cleanText s).toList ∧ cleanText (cleanText s).toList = cleanText s ∧
      ∀ t, cleanText t = String.ofList t ↔ Clean t := by
  refine ⟨clean_cleanText s, ?_, fun t => ⟨fun h => ?_, Clean.cleanText_eq⟩⟩
  · rw [(clean_cleanText s).cleanText_eq, String.ofList_toList]
  · have ht := clean_cleanText t
    rwa [h, String.toList_ofList] at ht

end DesignDoc.Tree
