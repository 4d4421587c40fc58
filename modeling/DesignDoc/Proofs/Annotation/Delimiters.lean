import DesignDoc.Proofs.Annotation.Canonical

/-! Where an annotation comment begins and ends. A block comment goes up to the first closing mark
after its opening one, of which no character is used twice, and what follows is not looked at; a line
comment goes up to the first break. A text of neither shape has no body, and so it says nothing. -/

namespace DesignDoc.Annotation.Comment

open DesignDoc.Text

/-! ### The closing mark -/

theorem exists_of_untilClose? {s b : List Char} (h : untilClose? s = some b) :
    ∃ rest, s = b ++ '*' :: '/' :: rest := by
  fun_induction untilClose? s generalizing b with
  | case1 => cases h
  | case2 rest =>
    obtain rfl := Option.some.inj h
    exact ⟨rest, rfl⟩
  | case3 c s hmark ih =>
    obtain ⟨b, hb, rfl⟩ := Option.map_eq_some_iff.mp h
    obtain ⟨rest, rfl⟩ := ih hb
    exact ⟨rest, rfl⟩

theorem untilClose?_eq_some_iff {s b : List Char} :
    untilClose? s = some b ↔ Unclosed b ∧ ∃ rest, s = b ++ '*' :: '/' :: rest := by
  constructor
  · intro h
    exact ⟨(prefix_and_unclosed_of_untilClose? h).2, exists_of_untilClose? h⟩
  · rintro ⟨hb, rest, rfl⟩
    exact untilClose?_append hb rest

theorem untilClose?_eq_none_iff {s : List Char} : untilClose? s = none ↔ Unclosed s := by
  constructor
  · intro h
    fun_induction untilClose? s with
    | case1 => simp [Unclosed]
    | case2 rest => cases h
    | case3 c s hmark ih =>
      intro hc
      rcases List.infix_cons_iff.mp hc with hc | hc
      · obtain ⟨rfl, t, ht⟩ := List.cons_prefix_cons.mp hc
        exact hmark t rfl ht.symm
      · exact ih (Option.map_eq_none_iff.mp h) hc
  · intro h
    rw [Option.eq_none_iff_forall_ne_some]
    intro b hb
    obtain ⟨rest, rfl⟩ := exists_of_untilClose? hb
    exact h ⟨b, rest, by simp⟩

/-! ### The two shapes -/

/-- The text is a block comment: between its marks stands `b`, which does not close it, and anything
may follow. -/
def IsBlock (text b : String) : Prop :=
  Unclosed b.toList ∧ ∃ rest, text = "/**" ++ b ++ "*/" ++ rest

/-- The text is a line comment: after its mark stands `s` on the same line, and further lines may
follow. -/
def IsLine (text s : String) : Prop :=
  Unbroken s.toList ∧ ∃ rest, AtLineEnd rest.toList ∧ text = "//*" ++ s ++ rest

theorem body_block {text b : String} (h : IsBlock text b) : body text.toList = .ok b.toList := by
  obtain ⟨hb, rest, rfl⟩ := h
  simp [body, untilClose?_append hb]

theorem body_line {text s : String} (h : IsLine text s) : body text.toList = .ok s.toList := by
  obtain ⟨hs, rest, hrest, rfl⟩ := h
  have htext : ("//*" ++ s ++ rest).toList = '/' :: '/' :: '*' :: (s.toList ++ rest.toList) := by
    simp
  rw [htext, body, headD_lines_append hs hrest]

/-- A text with a body has one of the two shapes. -/
theorem shape_of_body {text : String} {b : List Char} (h : body text.toList = .ok b) :
    IsBlock text (String.ofList b) ∨ IsLine text (String.ofList b) := by
  unfold body at h
  split at h
  · next s hs =>
    obtain ⟨l, t, rfl, hl, ht⟩ := exists_first_line s
    rw [headD_lines_append hl ht] at h
    obtain rfl := Except.ok.inj h
    refine .inr ⟨by simpa using hl, String.ofList t, by simpa using ht, ?_⟩
    rw [← String.toList_inj, hs]
    simp
  · next s hs =>
    split at h
    · next b' hb =>
      obtain rfl := Except.ok.inj h
      obtain ⟨hun, rest, rfl⟩ := untilClose?_eq_some_iff.mp hb
      refine .inl ⟨by simpa using hun, String.ofList rest, ?_⟩
      rw [← String.toList_inj, hs]
      simp
    · cases h
  · cases h

theorem items_of_body {text : String} {b : List Char} (h : body text.toList = .ok b) :
    items text = parseBody b := by
  rw [items, h]

theorem items_of_refusal {text : String} {r : Refusal} (h : body text.toList = .error r) :
    items text = [] := by
  rw [items, h]

/-! ### The delimiters -/

/-- What the delimiters of a text decide. -/
structure DelimiterLaws (text : String) : Prop where
  block : ∀ b, IsBlock text b → items text = parseBody b.toList
  line : ∀ s, IsLine text s → items text = parseBody s.toList
  /-- It does not matter which of the two shapes a body is given. -/
  agree : ∀ s, IsLine text s → ∀ other, IsBlock other s → items text = items other
  /-- No text has both shapes. -/
  apart : ∀ b s, ¬ (IsBlock text b ∧ IsLine text s)
  /-- A text of neither shape is refused. -/
  neither : (∀ b, ¬ IsBlock text b) → (∀ s, ¬ IsLine text s) →
    (∃ r, body text.toList = .error r) ∧ items text = []
  /-- A block comment that is never closed has neither shape, even if its opening mark is followed
  by a slash. -/
  unclosed : ∀ s, text = "/**" ++ s → Unclosed s.toList →
    (∀ b, ¬ IsBlock text b) ∧ ∀ s, ¬ IsLine text s

theorem delimiters_exact (text : String) : DelimiterLaws text where
  block _ hb := items_of_body (body_block hb)
  line _ hs := items_of_body (body_line hs)
  agree _ hs _ hb := by rw [items_of_body (body_line hs), items_of_body (body_block hb)]
  apart := by
    rintro b s ⟨⟨-, rest, rfl⟩, -, rest', -, h⟩
    have hchars := congrArg String.toList h
    simp at hchars
  neither hblock hline := by
    cases h : body text.toList with
    | error r => exact ⟨⟨r, rfl⟩, items_of_refusal h⟩
    | ok b =>
      rcases shape_of_body h with h | h
      · exact absurd h (hblock _)
      · exact absurd h (hline _)
  unclosed s hs hun := by
    have hbody : body text.toList = .error .unclosed := by
      simp [hs, body, untilClose?_eq_none_iff.mpr hun]
    constructor
    · intro b hb
      simp [body_block hb] at hbody
    · intro l hl
      simp [body_line hl] at hbody

/-- A body that begins with a slash and ends with an asterisk, a line that ends at a rare break, and
an opening mark that is not its own closing one. -/
theorem delimiters_exact_samples :
    (IsBlock "/**/\n@note a **/ @see b */" "/\n@note a *" ∧
      items "/**/\n@note a **/ @see b */" = [.summary "/", .simple .note "a *"]) ∧
    (IsLine "//*@note a *\x1e@see b" "@note a *" ∧ IsBlock "/**@note a **/" "@note a *" ∧
      items "//*@note a *\x1e@see b" = items "/**@note a **/") ∧
    (∃ r, body "/**/".toList = .error r) ∧ items "/**/" = [] := by
  have hblock : IsBlock "/**/\n@note a **/ @see b */" "/\n@note a *" :=
    ⟨by decide, " @see b */", by decide⟩
  have hshort : IsBlock "/**@note a **/" "@note a *" := ⟨by decide, "", by decide⟩
  have hline : IsLine "//*@note a *\x1e@see b" "@note a *" :=
    ⟨by decide, "\x1e@see b", by decide, by decide⟩
  refine ⟨⟨hblock, ?_⟩, ⟨hline, hshort, (delimiters_exact _).agree _ hline _ hshort⟩, ?_⟩
  · rw [(delimiters_exact _).block _ hblock]
    decide
  · obtain ⟨hnoBlock, hnoLine⟩ := (delimiters_exact "/**/").unclosed "/" (by decide) (by decide)
    exact (delimiters_exact "/**/").neither hnoBlock hnoLine

end DesignDoc.Annotation.Comment
