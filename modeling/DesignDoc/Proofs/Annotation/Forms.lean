import DesignDoc.Proofs.Annotation.Grammar

/-! How a line is read. A line is led in by blanks and at most one asterisk, and what it says after
them decides: nothing is no item, a text of one of the three forms is the item of the form that is
tried first, and every other text is plain. A form fits a text in one way only. -/

namespace DesignDoc.Annotation

theorem SimpleTag.keyword_injective {t u : SimpleTag} (h : t.keyword.toList = u.keyword.toList) :
    t = u := by
  have hread := ofKeyword?_keyword t
  rw [String.toList_inj.mp h, ofKeyword?_keyword u] at hread
  exact (Option.some.inj hread).symm

theorem NamedTag.keyword_injective {t u : NamedTag} (h : t.keyword.toList = u.keyword.toList) :
    t = u := by
  have hread := ofKeyword?_keyword t
  rw [String.toList_inj.mp h, ofKeyword?_keyword u] at hread
  exact (Option.some.inj hread).symm

end DesignDoc.Annotation

namespace DesignDoc.Annotation.Line

open DesignDoc.Text

/-! ### The lead-in -/

/-- What a line says after its lead-in: blanks, and an asterisk with the blanks after it if one
follows. -/
inductive LeadsTo : List Char → List Char → Prop
  | unmarked {ws s : List Char} (hws : ∀ c ∈ ws, isBlank c = true)
      (hs : ∀ c ∈ s.head?, isBlank c = false ∧ c ≠ '*') : LeadsTo (ws ++ s) s
  | marked {ws gap s : List Char} (hws : ∀ c ∈ ws, isBlank c = true)
      (hgap : ∀ c ∈ gap, isBlank c = true) (hs : ∀ c ∈ s.head?, isBlank c = false) :
      LeadsTo (ws ++ '*' :: (gap ++ s)) s

theorem leadsTo_content (line : List Char) : LeadsTo line (content line) := by
  obtain ⟨ws, hws, hline⟩ := exists_blanks_append_trimStart line
  have hvisible := isBlank_head?_trimStart line
  unfold content
  split
  · rename_i t ht
    obtain ⟨gap, hgap, hrest⟩ := exists_blanks_append_trimStart t
    rw [ht, hrest] at hline
    rw [hline]
    exact .marked hws hgap (isBlank_head?_trimStart t)
  · rename_i hmark
    nth_rewrite 1 [hline]
    refine .unmarked hws fun c hc => ⟨hvisible c hc, ?_⟩
    rintro rfl
    obtain ⟨t, ht⟩ := List.head?_eq_some_iff.mp hc
    exact hmark t ht

theorem content_eq_of_leadsTo {line s : List Char} (h : LeadsTo line s) : content line = s := by
  cases h with
  | unmarked hws hs =>
    have htrim : trimStart (_ ++ s) = s :=
      (trimStart_blanks_append hws s).trans (trimStart_eq_self fun c hc => (hs c hc).1)
    unfold content
    rw [htrim]
    split
    · exact absurd rfl (hs '*' rfl).2
    · rfl
  | @marked ws gap s hws hgap hs =>
    have hmark : trimStart (ws ++ '*' :: (gap ++ s)) = '*' :: (gap ++ s) :=
      (trimStart_blanks_append hws _).trans (trimStart_cons_of_not_blank (by decide) _)
    rw [content, hmark]
    exact (trimStart_blanks_append hgap s).trans (trimStart_eq_self hs)

theorem leadsTo_iff {line s : List Char} : LeadsTo line s ↔ s = content line :=
  ⟨fun h => (content_eq_of_leadsTo h).symm, fun h => h ▸ leadsTo_content line⟩

/-! ### Forms -/

/-- The end of a tagged line: a separator, and a payload in which a line feed may only stand at the
very end. -/
@[ext] structure Tail where
  separator : Char
  payload : List Char
  separates : separator = ' ' ∨ separator = ':'
  inLine : '\n' ∉ payload.dropLast

namespace Tail

def chars (t : Tail) : List Char := t.separator :: t.payload

/-- The payload without the blanks at its end. -/
def text (t : Tail) : String := String.ofList (trimEnd t.payload)

theorem ending (t : Tail) : Ending t.chars t.text := .intro t.separates t.inLine

theorem eq_of_chars_eq {t u : Tail} (h : t.chars = u.chars) : t = u :=
  Tail.ext (List.cons.inj h).1 (List.cons.inj h).2

end Tail

theorem Ending.exists_tail {s : List Char} {text : String} (h : Ending s text) :
    ∃ t : Tail, t.chars = s ∧ t.text = text := by
  obtain ⟨hsep, hpayload⟩ := h
  exact ⟨⟨_, _, hsep, hpayload⟩, rfl, rfl⟩

/-- A letter or an underscore, then letters, digits, underscores and dollar signs. -/
abbrev Name := { s : List Char // ∃ c t, s = c :: t ∧ isIdentifierStart c = true ∧
  ∀ d ∈ t, isIdentifierRest d = true }

theorem Name.isIdentifier (n : Name) : IsIdentifier n.1 := isIdentifier_iff.mpr n.2

abbrev Blanks := { s : List Char // ∀ c ∈ s, isBlank c = true }

/-- The parts of a tagged line. -/
inductive Form where
  | simple (tag : SimpleTag) (tail : Tail)
  | named (tag : NamedTag) (name : Name) (tail : Tail)
  | transition (source : Name) (before after : Blanks) (target : Name) (tail : Tail)

namespace Form

/-- `@tag text`, `@tag name text` or `@source -> target text` -/
def chars : Form → List Char
  | simple tag tail => '@' :: (tag.keyword.toList ++ tail.chars)
  | named tag name tail => '@' :: (tag.keyword.toList ++ ' ' :: (name.1 ++ tail.chars))
  | transition source before after target tail =>
    '@' :: (source.1 ++ (before.1 ++ '-' :: '>' :: (after.1 ++ (target.1 ++ tail.chars))))

def item : Form → Item
  | simple tag tail => .simple tag tail.text
  | named tag name tail => .named tag (String.ofList name.1) tail.text
  | transition source _ _ target tail =>
    .transition (String.ofList source.1) (String.ofList target.1) tail.text

/-- Forms of a lower rank are tried first. -/
def rank : Form → Nat
  | simple _ _ => 0
  | named _ _ _ => 1
  | transition _ _ _ _ _ => 2

/-- The reader of the forms of each kind. -/
def read? : Form → List Char → Option Item
  | simple _ _ => simple?
  | named _ _ _ => named?
  | transition _ _ _ _ _ => transition?

/-- A form is read back from its line. -/
theorem read?_chars (f : Form) : f.read? f.chars = some f.item := by
  cases f with
  | simple tag tail => exact simple?_eq_some_iff.mpr (.intro tag tail.ending)
  | named tag name tail => exact named?_eq_some_iff.mpr (.intro tag name.isIdentifier tail.ending)
  | transition source before after target tail =>
    exact transition?_eq_some_iff.mpr
      (.intro source.isIdentifier before.2 after.2 target.isIdentifier tail.ending)

end Form

theorem exists_form_of_simple? {s : List Char} {i : Item} (h : simple? s = some i) :
    ∃ f : Form, f.rank = 0 ∧ f.chars = s ∧ f.item = i := by
  obtain ⟨tag, hend⟩ := simple?_eq_some_iff.mp h
  obtain ⟨tail, rfl, rfl⟩ := hend.exists_tail
  exact ⟨.simple tag tail, rfl, rfl, rfl⟩

theorem exists_form_of_named? {s : List Char} {i : Item} (h : named? s = some i) :
    ∃ f : Form, f.rank = 1 ∧ f.chars = s ∧ f.item = i := by
  obtain ⟨tag, hname, hend⟩ := named?_eq_some_iff.mp h
  obtain ⟨tail, rfl, rfl⟩ := hend.exists_tail
  exact ⟨.named tag ⟨_, isIdentifier_iff.mp hname⟩ tail, rfl, rfl, rfl⟩

theorem exists_form_of_transition? {s : List Char} {i : Item} (h : transition? s = some i) :
    ∃ f : Form, f.rank = 2 ∧ f.chars = s ∧ f.item = i := by
  obtain ⟨hsource, hbefore, hafter, htarget, hend⟩ := transition?_eq_some_iff.mp h
  obtain ⟨tail, rfl, rfl⟩ := hend.exists_tail
  exact ⟨.transition ⟨_, isIdentifier_iff.mp hsource⟩ ⟨_, hbefore⟩ ⟨_, hafter⟩
    ⟨_, isIdentifier_iff.mp htarget⟩ tail, rfl, rfl, rfl⟩

/-! ### A form fits in one way -/

/-- Where blanks end is decided by what follows them. -/
theorem blanks_append_inj {v w : Blanks} {s t : List Char} (h : v.1 ++ s = w.1 ++ t)
    (hs : ∀ c ∈ s.head?, isBlank c = false) (ht : ∀ c ∈ t.head?, isBlank c = false) :
    v = w ∧ s = t := by
  have hst : s = t := by
    calc
      s = trimStart (v.1 ++ s) := by rw [trimStart_blanks_append v.2, trimStart_eq_self hs]
      _ = trimStart (w.1 ++ t) := by rw [h]
      _ = t := by rw [trimStart_blanks_append w.2, trimStart_eq_self ht]
  subst hst
  exact ⟨Subtype.ext (List.append_cancel_right h), rfl⟩

/-- Where a name ends is decided by what follows it. -/
theorem name_append_inj {m n : List Char} (hm : IsIdentifier m) (hn : IsIdentifier n)
    {s t : List Char} (h : m ++ s = n ++ t) (hs : ∀ c ∈ s.head?, isIdentifierRest c = false)
    (ht : ∀ c ∈ t.head?, isIdentifierRest c = false) : m = n ∧ s = t := by
  have hread := identifier?_eq_some_iff.mpr ⟨rfl, hm, hs⟩
  rw [h, identifier?_eq_some_iff.mpr ⟨rfl, hn, ht⟩] at hread
  obtain ⟨rfl, rfl⟩ := Prod.mk.inj (Option.some.inj hread)
  exact ⟨rfl, rfl⟩

theorem Tail.ends_name (t : Tail) : ∀ c ∈ t.chars.head?, isIdentifierRest c = false := by
  rintro c hc
  obtain rfl := Option.some.inj hc
  rcases t.separates with h | h <;> rw [h] <;> decide

theorem Blanks.ends_name (w : Blanks) (s : List Char) :
    ∀ c ∈ (w.1 ++ '-' :: s).head?, isIdentifierRest c = false := by
  obtain ⟨w, hw⟩ := w
  intro c hc
  cases w with
  | nil =>
    obtain rfl := Option.some.inj hc
    decide
  | cons d w =>
    obtain rfl := Option.some.inj hc
    exact isIdentifierRest_of_isBlank (hw _ List.mem_cons_self)

theorem Name.isBlank_head? (n : Name) (s : List Char) :
    ∀ c ∈ (n.1 ++ s).head?, isBlank c = false := by
  obtain ⟨n, c, t, rfl, hc, ht⟩ := n
  intro d hd
  obtain rfl := Option.some.inj hd
  exact (isIdentifier_iff.mpr ⟨_, t, rfl, hc, ht⟩).isBlank List.mem_cons_self

/-- Forms of one kind with the same line have the same parts. -/
theorem Form.eq_of_chars_eq {f g : Form} (h : f.chars = g.chars) (hrank : f.rank = g.rank) :
    f = g := by
  cases f with
  | simple tag tail =>
    cases g with
    | simple tag' tail' =>
      obtain ⟨htag, htail⟩ := name_append_inj tag.isIdentifier_keyword tag'.isIdentifier_keyword
        (List.cons.inj h).2 tail.ends_name tail'.ends_name
      rw [SimpleTag.keyword_injective htag, Tail.eq_of_chars_eq htail]
    | _ => cases hrank
  | named tag name tail =>
    cases g with
    | named tag' name' tail' =>
      obtain ⟨htag, hrest⟩ := name_append_inj tag.isIdentifier_keyword tag'.isIdentifier_keyword
        (List.cons.inj h).2 (by simp [isIdentifierRest]) (by simp [isIdentifierRest])
      obtain ⟨hname, htail⟩ := name_append_inj name.isIdentifier name'.isIdentifier
        (List.cons.inj hrest).2 tail.ends_name tail'.ends_name
      rw [NamedTag.keyword_injective htag, Subtype.ext hname, Tail.eq_of_chars_eq htail]
    | _ => cases hrank
  | transition source before after target tail =>
    cases g with
    | transition source' before' after' target' tail' =>
      obtain ⟨hsource, hrest⟩ := name_append_inj source.isIdentifier source'.isIdentifier
        (List.cons.inj h).2 (before.ends_name _) (before'.ends_name _)
      obtain ⟨hbefore, hrest⟩ := blanks_append_inj hrest (by simp [isBlank]) (by simp [isBlank])
      obtain ⟨hafter, hrest⟩ := blanks_append_inj (List.cons.inj (List.cons.inj hrest).2).2
        (target.isBlank_head? _) (target'.isBlank_head? _)
      obtain ⟨htarget, htail⟩ := name_append_inj target.isIdentifier target'.isIdentifier hrest
        tail.ends_name tail'.ends_name
      rw [Subtype.ext hsource, hbefore, hafter, Subtype.ext htarget, Tail.eq_of_chars_eq htail]
    | _ => cases hrank

/-! ### The form that is tried first -/

/-- A form fits, and it is tried before all others that do. -/
def Form.First (f : Form) (s : List Char) : Prop :=
  f.chars = s ∧ ∀ g : Form, g.chars = s → g ≠ f → f.rank < g.rank

theorem Form.chars_ne_of_read? {s : List Char} {f : Form} (h : f.read? s = none) :
    f.chars ≠ s := by
  rintro rfl
  rw [f.read?_chars] at h
  cases h

theorem Form.first_of_read? {s : List Char} {f : Form} (hs : f.chars = s)
    (hlow : ∀ g : Form, g.rank < f.rank → g.read? s = none) : f.First s := by
  refine ⟨hs, fun g hg hne => ?_⟩
  by_contra hlt
  rcases Nat.lt_or_eq_of_le (Nat.le_of_not_lt hlt) with hlt | heq
  · exact chars_ne_of_read? (hlow g hlt) hg
  · exact hne (eq_of_chars_eq (hg.trans hs.symm) heq)

/-- The readers are tried in the order of the ranks. -/
theorem exists_first_of_tagged? {s : List Char} {i : Item} (h : tagged? s = some i) :
    ∃ f : Form, f.First s ∧ f.item = i := by
  rw [tagged?_eq_or, Option.or_eq_some_iff, Option.or_eq_some_iff] at h
  obtain h | ⟨hsimple, h | ⟨hnamed, h⟩⟩ := h
  · obtain ⟨f, hrank, hs, hi⟩ := exists_form_of_simple? h
    refine ⟨f, Form.first_of_read? hs fun g hg => ?_, hi⟩
    rw [hrank] at hg
    exact absurd hg (Nat.not_lt_zero _)
  · obtain ⟨f, hrank, hs, hi⟩ := exists_form_of_named? h
    refine ⟨f, Form.first_of_read? hs fun g hg => ?_, hi⟩
    rw [hrank] at hg
    cases g with
    | simple tag tail => exact hsimple
    | _ => exact absurd hg (by simp [Form.rank])
  · obtain ⟨f, hrank, hs, hi⟩ := exists_form_of_transition? h
    refine ⟨f, Form.first_of_read? hs fun g hg => ?_, hi⟩
    rw [hrank] at hg
    cases g with
    | simple tag tail => exact hsimple
    | named tag name tail => exact hnamed
    | transition source before after target tail => exact absurd hg (by simp [Form.rank])

theorem tagged?_chars_ne_none (f : Form) : tagged? f.chars ≠ none := by
  intro h
  rw [tagged?_eq_or, Option.or_eq_none_iff, Option.or_eq_none_iff] at h
  have hread := f.read?_chars
  cases f with
  | simple tag tail => exact absurd (h.1.symm.trans hread) (by simp)
  | named tag name tail => exact absurd (h.2.1.symm.trans hread) (by simp)
  | transition source before after target tail => exact absurd (h.2.2.symm.trans hread) (by simp)

theorem item?_of_content {line : List Char} (h : content line ≠ []) :
    item? line = some ((tagged? (content line)).getD
      (.plain (String.ofList (trimEnd (content line))))) := by
  unfold item?
  split
  · exact absurd ‹_› h
  · rfl

/-! ### The item of a line -/

/-- What a line says, and the item that it gives. -/
structure Reads (s : List Char) (i : Option Item) : Prop where
  /-- Nothing is no item. -/
  silent : i = none ↔ s = []
  /-- If any form fits, the item is that of the form that is tried first. -/
  tagged : (∃ f : Form, f.chars = s) → ∃ f : Form, f.First s ∧ i = some f.item
  /-- All else is plain. -/
  plain : s ≠ [] → (∀ f : Form, f.chars ≠ s) → i = some (.plain (String.ofList (trimEnd s)))

/-- Every line says one thing after its lead-in, and is read by it. -/
theorem line_read_exactly (line : List Char) :
    ∃ s, (∀ t, LeadsTo line t ↔ t = s) ∧ Reads s (item? line) := by
  refine ⟨content line, fun t => leadsTo_iff, item?_eq_none_iff line, ?_, ?_⟩
  · rintro ⟨f, hf⟩
    obtain ⟨i, hi⟩ := Option.ne_none_iff_exists'.mp (hf ▸ tagged?_chars_ne_none f)
    obtain ⟨g, hfirst, rfl⟩ := exists_first_of_tagged? hi
    have hne : content line ≠ [] := by
      rw [← hf]
      cases f <;> simp [Form.chars]
    exact ⟨g, hfirst, by rw [item?_of_content hne, hi, Option.getD_some]⟩
  · intro hne hnone
    have huntagged : tagged? (content line) = none := by
      rw [Option.eq_none_iff_forall_ne_some]
      intro i hi
      obtain ⟨f, hfirst, -⟩ := exists_first_of_tagged? hi
      exact hnone f hfirst.1
    rw [item?_of_content hne, huntagged, Option.getD_none]

/-- Lines that almost have another form: a note that looks like a transition, transitions from states
that are called like a tag, a tag after two asterisks, and a port without a separator after its
name. -/
def arrowLines : List (List Char) :=
  [" * @note -> x y".toList, "@port -> b c ".toList, " *@note->x:y".toList, "**@note x".toList,
   "@port clk".toList, " * ".toList]

theorem line_read_exactly_arrowLines :
    (∀ line ∈ arrowLines, ∃ s, LeadsTo line s ∧ Reads s (item? line)) ∧
      arrowLines.map item? =
        [some (.simple .note "-> x y"), some (.transition "port" "b" "c"),
         some (.transition "note" "x" "y"), some (.plain "*@note x"), some (.plain "@port clk"),
         none] := by
  refine ⟨fun line _ => ?_, by decide⟩
  obtain ⟨s, hlead, hread⟩ := line_read_exactly line
  exact ⟨s, (hlead s).mpr rfl, hread⟩

end DesignDoc.Annotation.Line
