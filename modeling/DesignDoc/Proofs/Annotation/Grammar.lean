import DesignDoc.Annotation.Line
import DesignDoc.Proofs.Text.Lines

/-! The grammar of tagged lines. Three relations say which texts have one of the three forms and
which items they stand for; each recogniser accepts its form and gives its item. -/

namespace DesignDoc.Annotation

theorem SimpleTag.ofKeyword?_eq_some_iff {s : String} {t : SimpleTag} :
    ofKeyword? s = some t ↔ t.keyword = s := by
  constructor
  · intro h
    simpa using List.find?_some h
  · rintro rfl
    exact ofKeyword?_keyword t

theorem NamedTag.ofKeyword?_eq_some_iff {s : String} {t : NamedTag} :
    ofKeyword? s = some t ↔ t.keyword = s := by
  constructor
  · intro h
    simpa using List.find?_some h
  · rintro rfl
    exact ofKeyword?_keyword t

/-- No keyword belongs to tags of both kinds. -/
theorem SimpleTag.ofKeyword?_namedKeyword (t : NamedTag) : ofKeyword? t.keyword = none := by
  cases t <;> decide

theorem SimpleTag.isIdentifier_keyword (t : SimpleTag) : Line.IsIdentifier t.keyword.toList := by
  cases t <;> decide

theorem NamedTag.isIdentifier_keyword (t : NamedTag) : Line.IsIdentifier t.keyword.toList := by
  cases t <;> decide

/-- The names that an item mentions. -/
def Item.names : Item → List String
  | plain _ | simple _ _ => []
  | named _ name _ => [name]
  | transition source target _ => [source, target]

end DesignDoc.Annotation

namespace DesignDoc.Annotation.Line

open DesignDoc.Text

theorem content_suffix (l : List Char) : content l <:+ l := by
  have hl := trimStart_suffix l
  unfold content
  split
  · rename_i t ht
    rw [ht] at hl
    exact ((trimStart_suffix t).trans (List.suffix_cons '*' t)).trans hl
  · exact hl

theorem isBlank_head?_content (l : List Char) : ∀ c ∈ (content l).head?, isBlank c = false := by
  unfold content
  split
  · exact isBlank_head?_trimStart _
  · exact isBlank_head?_trimStart _

/-! ### Identifiers -/

theorem toNat_of_isAlpha {c : Char} (h : c.isAlpha = true) :
    (0x41 ≤ c.toNat ∧ c.toNat ≤ 0x5A) ∨ (0x61 ≤ c.toNat ∧ c.toNat ≤ 0x7A) := by
  rcases Bool.or_eq_true_iff.mp h with h | h
  · have hc := of_decide_eq_true h
    simp only [ge_iff_le, UInt32.le_iff_toNat_le] at hc
    exact .inl hc
  · have hc := Bool.and_eq_true_iff.mp h
    simp only [ge_iff_le, decide_eq_true_eq, UInt32.le_iff_toNat_le] at hc
    exact .inr hc

theorem isIdentifierRest_of_isBlank {c : Char} (h : isBlank c = true) :
    isIdentifierRest c = false := by
  simp only [isBlank, Bool.or_eq_true, Bool.and_eq_true, decide_eq_true_eq, beq_iff_eq] at h
  by_contra hc
  simp only [isIdentifierRest, Char.isAlphanum, Bool.not_eq_false, Bool.or_eq_true, beq_iff_eq]
    at hc
  rcases hc with ((hc | hc) | rfl) | rfl
  · have hletter := toNat_of_isAlpha hc
    omega
  · have hdigit : 0x30 ≤ c.toNat ∧ c.toNat ≤ 0x39 := Char.isDigit_iff_toNat.mp hc
    omega
  · revert h
    decide
  · revert h
    decide

theorem isIdentifierRest_of_isIdentifierStart {c : Char} (h : isIdentifierStart c = true) :
    isIdentifierRest c = true := by
  simp only [isIdentifierStart, isIdentifierRest, Char.isAlphanum, Bool.or_eq_true] at h ⊢
  tauto

/-- A letter or an underscore, then letters, digits, underscores and dollar signs. -/
theorem isIdentifier_iff {s : List Char} :
    IsIdentifier s ↔ ∃ c t, s = c :: t ∧ isIdentifierStart c = true ∧
      ∀ d ∈ t, isIdentifierRest d = true := by
  cases s <;> simp [IsIdentifier, identifier?]

theorem IsIdentifier.isIdentifierRest {name : List Char} (h : IsIdentifier name) {c : Char}
    (hc : c ∈ name) : isIdentifierRest c = true := by
  obtain ⟨d, t, rfl, hd, ht⟩ := isIdentifier_iff.mp h
  rcases List.mem_cons.mp hc with rfl | hc
  · exact isIdentifierRest_of_isIdentifierStart hd
  · exact ht c hc

theorem IsIdentifier.isBlank {name : List Char} (h : IsIdentifier name) {c : Char}
    (hc : c ∈ name) : isBlank c = false := by
  by_contra hb
  have hrest := isIdentifierRest_of_isBlank (Bool.not_eq_false _ ▸ hb)
  exact absurd (h.isIdentifierRest hc) (by simp [hrest])

theorem IsIdentifier.trimStart_append {name : List Char} (h : IsIdentifier name) (s : List Char) :
    trimStart (name ++ s) = name ++ s := by
  obtain ⟨c, t, rfl, -, -⟩ := isIdentifier_iff.mp h
  exact trimStart_cons_of_not_blank (h.isBlank List.mem_cons_self) _

/-- An identifier goes on as long as it can. -/
theorem identifier?_eq_some_iff {s name rest : List Char} :
    identifier? s = some (name, rest) ↔
      s = name ++ rest ∧ IsIdentifier name ∧ ∀ c ∈ rest.head?, isIdentifierRest c = false := by
  constructor
  · intro h
    refine ⟨eq_append_of_identifier? h, ?_⟩
    cases s with
    | nil => simp [identifier?] at h
    | cons c s =>
      rw [identifier?, Option.ite_none_right_eq_some] at h
      obtain ⟨hc, h⟩ := h
      obtain ⟨rfl, rfl⟩ := Prod.mk.inj (Option.some.inj h)
      refine ⟨isIdentifier_iff.mpr ⟨c, _, rfl, hc, fun d hd => List.mem_takeWhile_imp hd⟩, ?_⟩
      intro d hd
      have hs := List.head?_dropWhile_not isIdentifierRest s
      rwa [Option.mem_def.mp hd] at hs
  · rintro ⟨rfl, hname, hrest⟩
    obtain ⟨c, t, rfl, hc, ht⟩ := isIdentifier_iff.mp hname
    simp only [identifier?, List.cons_append, hc, if_true, List.takeWhile_append_of_pos ht,
      List.dropWhile_append_of_pos ht]
    cases rest with
    | nil => simp
    | cons d rest => simp [hrest d rfl]

theorem identifier?_append_cons {name : List Char} {c : Char} (hname : IsIdentifier name)
    (hc : isIdentifierRest c = false) (s : List Char) :
    identifier? (name ++ c :: s) = some (name, c :: s) :=
  identifier?_eq_some_iff.mpr ⟨rfl, hname, by simpa using hc⟩

/-! ### The three forms -/

/-- How a tagged line ends, and the text that this gives: a separator, and a payload in which a line
feed may only stand at the very end. -/
inductive Ending : List Char → String → Prop
  | intro {sep : Char} {payload : List Char} (hsep : sep = ' ' ∨ sep = ':')
      (h : '\n' ∉ payload.dropLast) : Ending (sep :: payload) (String.ofList (trimEnd payload))

/-- `@tag text` -/
inductive SimpleLine : List Char → Item → Prop
  | intro (tag : SimpleTag) {rest : List Char} {text : String} (h : Ending rest text) :
      SimpleLine ('@' :: (tag.keyword.toList ++ rest)) (.simple tag text)

/-- `@tag name text` -/
inductive NamedLine : List Char → Item → Prop
  | intro (tag : NamedTag) {name rest : List Char} {text : String} (hname : IsIdentifier name)
      (h : Ending rest text) :
      NamedLine ('@' :: (tag.keyword.toList ++ ' ' :: (name ++ rest)))
        (.named tag (String.ofList name) text)

/-- `@source -> target text`, with any blanks or none around the arrow. -/
inductive TransitionLine : List Char → Item → Prop
  | intro {source before after target rest : List Char} {text : String}
      (hsource : IsIdentifier source) (hbefore : ∀ c ∈ before, isBlank c = true)
      (hafter : ∀ c ∈ after, isBlank c = true) (htarget : IsIdentifier target)
      (h : Ending rest text) :
      TransitionLine ('@' :: (source ++ (before ++ '-' :: '>' :: (after ++ (target ++ rest)))))
        (.transition (String.ofList source) (String.ofList target) text)

theorem payload?_eq_some_iff {s : List Char} {text : String} :
    payload? s = some text ↔ Ending s text := by
  constructor
  · intro h
    cases s with
    | nil => simp [payload?] at h
    | cons sep payload =>
      simp only [payload?, Option.ite_none_right_eq_some, Bool.and_eq_true, Bool.or_eq_true,
        beq_iff_eq, Bool.not_eq_true', Option.some.injEq] at h
      obtain ⟨⟨hsep, hpayload⟩, rfl⟩ := h
      exact .intro hsep (by simpa using hpayload)
  · rintro ⟨hsep, hpayload⟩
    simp [payload?, hsep, hpayload]

theorem Ending.identifier?_append {name rest : List Char} {text : String} (h : Ending rest text)
    (hname : IsIdentifier name) : identifier? (name ++ rest) = some (name, rest) := by
  obtain ⟨rfl | rfl, -⟩ := h
  · exact identifier?_append_cons hname (by decide) _
  · exact identifier?_append_cons hname (by decide) _

theorem Ending.append {rest more : List Char} {text : String} (h : Ending rest text)
    (hmore : '\n' ∉ rest ++ more) : ∃ text', Ending (rest ++ more) text' := by
  obtain ⟨hsep, -⟩ := h
  refine ⟨_, .intro hsep fun hm => hmore ?_⟩
  exact List.mem_cons_of_mem _ (List.dropLast_subset _ hm)

theorem simple?_eq_some_iff {s : List Char} {i : Item} : simple? s = some i ↔ SimpleLine s i := by
  constructor
  · intro h
    unfold simple? at h
    split at h
    · simp only [Option.bind_eq_bind, Option.bind_eq_some_iff, Prod.exists, Option.pure_def,
        Option.some.injEq] at h
      obtain ⟨word, rest, hword, tag, htag, text, htext, rfl⟩ := h
      obtain ⟨rfl, -, -⟩ := identifier?_eq_some_iff.mp hword
      obtain rfl : tag.keyword.toList = word := by
        rw [SimpleTag.ofKeyword?_eq_some_iff.mp htag, String.toList_ofList]
      exact .intro tag (payload?_eq_some_iff.mp htext)
    · cases h
  · rintro ⟨tag, hrest⟩
    have hword := hrest.identifier?_append tag.isIdentifier_keyword
    simp [simple?, hword, SimpleTag.ofKeyword?_keyword, payload?_eq_some_iff.mpr hrest]

theorem named?_eq_some_iff {s : List Char} {i : Item} : named? s = some i ↔ NamedLine s i := by
  constructor
  · intro h
    unfold named? at h
    split at h
    · simp only [Option.bind_eq_bind, Option.bind_eq_some_iff, Prod.exists] at h
      obtain ⟨word, rest, hword, tag, htag, h⟩ := h
      obtain ⟨rfl, -, -⟩ := identifier?_eq_some_iff.mp hword
      obtain rfl : tag.keyword.toList = word := by
        rw [NamedTag.ofKeyword?_eq_some_iff.mp htag, String.toList_ofList]
      split at h
      · simp only [Option.bind_eq_some_iff, Prod.exists, Option.pure_def, Option.some.injEq] at h
        obtain ⟨name, rest, hname, text, htext, rfl⟩ := h
        obtain ⟨rfl, hname, -⟩ := identifier?_eq_some_iff.mp hname
        exact .intro tag hname (payload?_eq_some_iff.mp htext)
      · cases h
    · cases h
  · rintro ⟨tag, hname, hrest⟩
    have hword := identifier?_append_cons tag.isIdentifier_keyword
      (show isIdentifierRest ' ' = false by decide)
    simp [named?, hword, NamedTag.ofKeyword?_keyword, hrest.identifier?_append hname,
      payload?_eq_some_iff.mpr hrest]

theorem transition?_eq_some_iff {s : List Char} {i : Item} :
    transition? s = some i ↔ TransitionLine s i := by
  constructor
  · intro h
    unfold transition? at h
    split at h
    · simp only [Option.bind_eq_bind, Option.bind_eq_some_iff, Prod.exists] at h
      obtain ⟨source, rest, hsource, h⟩ := h
      obtain ⟨rfl, hsource, -⟩ := identifier?_eq_some_iff.mp hsource
      split at h
      · rename_i arrow hrest
        simp only [Option.bind_eq_some_iff, Prod.exists, Option.pure_def, Option.some.injEq] at h
        obtain ⟨target, ending, htarget, text, htext, rfl⟩ := h
        obtain ⟨htarget, hident, -⟩ := identifier?_eq_some_iff.mp htarget
        obtain ⟨before, hbefore, hb⟩ := exists_blanks_append_trimStart rest
        obtain ⟨after, hafter, ha⟩ := exists_blanks_append_trimStart arrow
        rw [hb, hrest, ha, htarget]
        exact .intro hsource hbefore hafter hident (payload?_eq_some_iff.mp htext)
      · cases h
    · cases h
  · rintro @⟨source, before, after, target, rest, text, hsource, hbefore, hafter, htarget, hrest⟩
    have hsource : identifier? (source ++ (before ++ '-' :: '>' :: (after ++ (target ++ rest)))) =
        some (source, before ++ '-' :: '>' :: (after ++ (target ++ rest))) := by
      cases before with
      | nil => exact identifier?_append_cons hsource (by decide) _
      | cons c before =>
        have hc := isIdentifierRest_of_isBlank (hbefore c List.mem_cons_self)
        exact identifier?_append_cons hsource hc _
    have harrow : trimStart (before ++ '-' :: '>' :: (after ++ (target ++ rest))) =
        '-' :: '>' :: (after ++ (target ++ rest)) := by
      rw [trimStart_blanks_append hbefore, trimStart_cons_of_not_blank (by decide)]
    have htrim : trimStart (after ++ (target ++ rest)) = target ++ rest := by
      rw [trimStart_blanks_append hafter, htarget.trimStart_append]
    simp [transition?, hsource, harrow, htrim, hrest.identifier?_append htarget,
      payload?_eq_some_iff.mpr hrest]

/-! ### Lines of any form -/

/-- A line of one of the three forms. -/
def Tagged (s : List Char) (i : Item) : Prop :=
  SimpleLine s i ∨ NamedLine s i ∨ TransitionLine s i

theorem tagged?_eq_or (s : List Char) :
    tagged? s = (simple? s).or ((named? s).or (transition? s)) := by
  simp [tagged?]

theorem tagged_of_tagged? {s : List Char} {i : Item} (h : tagged? s = some i) : Tagged s i := by
  simp only [tagged?_eq_or, Option.or_eq_some_iff, simple?_eq_some_iff, named?_eq_some_iff,
    transition?_eq_some_iff] at h
  unfold Tagged
  tauto

theorem SimpleLine.tagged? {s : List Char} {i : Item} (h : SimpleLine s i) : tagged? s = some i := by
  rw [tagged?_eq_or, simple?_eq_some_iff.mpr h, Option.some_or]

theorem NamedLine.tagged? {s : List Char} {i : Item} (h : NamedLine s i) : tagged? s = some i := by
  have hsimple : simple? s = none := by
    obtain ⟨tag, hname, hrest⟩ := h
    have hword := identifier?_append_cons tag.isIdentifier_keyword
      (show isIdentifierRest ' ' = false by decide)
    simp [simple?, hword, SimpleTag.ofKeyword?_namedKeyword]
  rw [tagged?_eq_or, hsimple, named?_eq_some_iff.mpr h, Option.none_or, Option.some_or]

/-- An arrow next to its source is never read as the text of a tag. -/
theorem tagged?_arrow {source : List Char} (h : IsIdentifier source) (s : List Char) :
    tagged? ('@' :: (source ++ '-' :: s)) = transition? ('@' :: (source ++ '-' :: s)) := by
  have hword := identifier?_append_cons h (show isIdentifierRest '-' = false by decide) s
  have hsimple : simple? ('@' :: (source ++ '-' :: s)) = none := by
    simp [simple?, hword, payload?]
  have hnamed : named? ('@' :: (source ++ '-' :: s)) = none := by
    simp [named?, hword]
  rw [tagged?_eq_or, hsimple, hnamed, Option.none_or, Option.none_or]

theorem tagged?_eq_none_iff {s : List Char} : tagged? s = none ↔ ∀ i, ¬ Tagged s i := by
  rw [tagged?_eq_or, Option.or_eq_none_iff, Option.or_eq_none_iff]
  simp only [Option.eq_none_iff_forall_ne_some, ne_eq, simple?_eq_some_iff, named?_eq_some_iff,
    transition?_eq_some_iff, Tagged, not_or, forall_and]

theorem Tagged.isPlain {s : List Char} {i : Item} (h : Tagged s i) : i.isPlain = false := by
  rcases h with h | h | h <;> cases h <;> rfl

theorem Tagged.isIdentifier {s : List Char} {i : Item} (h : Tagged s i) :
    ∀ name ∈ i.names, IsIdentifier name.toList := by
  rcases h with h | h | h
  · obtain ⟨tag, h⟩ := h
    simp [Item.names]
  · obtain ⟨tag, hname, h⟩ := h
    simpa [Item.names] using hname
  · obtain ⟨hsource, hbefore, hafter, htarget, h⟩ := h
    simpa [Item.names] using ⟨hsource, htarget⟩

/-- A line of any form may end in another way, and stands for an item with another text then. -/
theorem Tagged.exists_ending {s : List Char} {i : Item} (h : Tagged s i) :
    ∃ front rest, s = front ++ rest ∧ Ending rest i.text ∧
      ∀ rest' text', Ending rest' text' → Tagged (front ++ rest') (i.withText text') := by
  rcases h with h | h | h
  · obtain ⟨tag, h⟩ := h
    refine ⟨'@' :: tag.keyword.toList, _, rfl, h, fun rest' text' h' => .inl (.intro tag h')⟩
  · obtain @⟨tag, name, rest, text, hname, h⟩ := h
    refine ⟨'@' :: (tag.keyword.toList ++ ' ' :: name), rest, by simp, h, ?_⟩
    intro rest' text' h'
    have := NamedLine.intro tag hname h'
    simpa [Tagged] using .inr (.inl this)
  · obtain @⟨source, before, after, target, rest, text, hsource, hbefore, hafter, htarget, h⟩ := h
    refine ⟨'@' :: (source ++ (before ++ '-' :: '>' :: (after ++ target))), rest, by simp, h, ?_⟩
    intro rest' text' h'
    have := TransitionLine.intro hsource hbefore hafter htarget h'
    simpa [Tagged] using .inr (.inr this)

/-- The text is a trimmed end of the line. -/
theorem Tagged.exists_payload {s : List Char} {i : Item} (h : Tagged s i) :
    ∃ payload, payload <:+ s ∧ i.text.toList = trimEnd payload := by
  obtain ⟨front, rest, rfl, hend, -⟩ := h.exists_ending
  generalize i.text = text at hend
  obtain @⟨sep, payload, hsep, hpayload⟩ := hend
  exact ⟨payload, ⟨front ++ [sep], by simp⟩, String.toList_ofList⟩

/-- A line keeps its form if more is written at its end. -/
theorem Tagged.of_isPrefix {s t : List Char} {i : Item} (h : Tagged s i) (hst : s <+: t)
    (ht : Unbroken t) : ∃ j, Tagged t j := by
  obtain ⟨front, rest, rfl, hend, hother⟩ := h.exists_ending
  obtain ⟨more, rfl⟩ := hst
  have hmore : Unbroken (rest ++ more) := ht.of_infix ⟨front, [], by simp⟩
  obtain ⟨text, hend⟩ := hend.append hmore.not_mem_newline
  rw [List.append_assoc]
  exact ⟨_, hother _ _ hend⟩

end DesignDoc.Annotation.Line
