import DesignDoc.Proofs.Text.Lines

/-! Words and the blanks between them. A text is put together from its words with blanks around
them, and collapsing leaves one space between two words and nothing else. The collapsed texts are
those in which every blank is a single space between two characters that are not blank. Nothing
comes together by collapsing: what has no blank in it and stands in the collapsed text stood in the
text before, in the same order. -/

namespace DesignDoc.Text

/-! ### Words -/

/-- A text without blanks that is not empty. -/
def IsWord (w : List Char) : Prop := w ≠ [] ∧ ∀ c ∈ w, isBlank c = false

@[simp] theorem words_nil : words [] = [] := by simp [words]

/-- A blank ends a word. -/
theorem words_append_blank (s : List Char) {c : Char} (hc : isBlank c = true) (t : List Char) :
    words (s ++ c :: t) = words s ++ words t := by
  rw [words, List.splitOnP_append_cons s t hc, List.filter_append]
  rfl

theorem words_cons_of_blank {c : Char} (hc : isBlank c = true) (s : List Char) :
    words (c :: s) = words s := by
  simpa using words_append_blank [] hc s

theorem words_blanks_append {b : List Char} (hb : ∀ c ∈ b, isBlank c = true) (s : List Char) :
    words (b ++ s) = words s := by
  induction b with
  | nil => rfl
  | cons c b ih =>
    rw [List.cons_append, words_cons_of_blank (hb c List.mem_cons_self),
      ih fun d hd => hb d (List.mem_cons_of_mem c hd)]

theorem IsWord.words_eq {w : List Char} (hw : IsWord w) : words w = [w] := by
  rw [words, List.splitOnP_eq_singleton hw.2]
  simp [hw.1]

/-- A word goes on up to the first blank. -/
theorem IsWord.words_append {w : List Char} (hw : IsWord w) {r : List Char}
    (hr : ∀ c ∈ r.head?, isBlank c = true) : words (w ++ r) = w :: words r := by
  cases r with
  | nil => rw [List.append_nil, hw.words_eq, words_nil]
  | cons c r =>
    have hc : isBlank c = true := hr c rfl
    rw [words_append_blank w hc, hw.words_eq, words_cons_of_blank hc, List.singleton_append]

/-- The blanks before a text, its first word, and the rest. -/
theorem exists_first_word (s : List Char) :
    (∀ c ∈ s, isBlank c = true) ∨
      ∃ b w r, s = b ++ (w ++ r) ∧ (∀ c ∈ b, isBlank c = true) ∧ IsWord w ∧
        ∀ c ∈ r.head?, isBlank c = true := by
  obtain ⟨b, hb, hs⟩ := exists_blanks_append_trimStart s
  have hstart := isBlank_head?_trimStart s
  generalize trimStart s = t at hs hstart
  subst hs
  cases t with
  | nil => exact .inl (by simpa using hb)
  | cons c t =>
    have hc : isBlank c = false := hstart c rfl
    refine .inr ⟨b, (c :: t).takeWhile (! isBlank ·), (c :: t).dropWhile (! isBlank ·), ?_, hb,
      ⟨?_, fun d hd => by simpa using List.mem_takeWhile_imp hd⟩, fun d hd => ?_⟩
    · rw [List.takeWhile_append_dropWhile]
    · simp [hc]
    · have hn := List.head?_dropWhile_not (! isBlank ·) (c :: t)
      rw [hd] at hn
      simpa using hn

theorem words_eq_nil_iff {s : List Char} : words s = [] ↔ ∀ c ∈ s, isBlank c = true := by
  constructor
  · intro h
    obtain hs | ⟨b, w, r, rfl, hb, hw, hr⟩ := exists_first_word s
    · exact hs
    · rw [words_blanks_append hb, hw.words_append hr] at h
      cases h
  · intro h
    have hs := words_blanks_append h []
    rwa [List.append_nil, words_nil] at hs

theorem exists_of_words_eq_cons {s w : List Char} {ws : List (List Char)} (h : words s = w :: ws) :
    ∃ b r, s = b ++ (w ++ r) ∧ (∀ c ∈ b, isBlank c = true) ∧ IsWord w ∧
      (∀ c ∈ r.head?, isBlank c = true) ∧ words r = ws := by
  obtain hs | ⟨b, w', r, rfl, hb, hw, hr⟩ := exists_first_word s
  · rw [words_eq_nil_iff.mpr hs] at h
    cases h
  · rw [words_blanks_append hb, hw.words_append hr] at h
    cases h
    exact ⟨b, r, rfl, hb, hw, hr, rfl⟩

theorem isWord_of_mem_words {s w : List Char} (h : w ∈ words s) : IsWord w := by
  generalize hws : words s = ws at h
  induction ws generalizing s with
  | nil => cases h
  | cons v ws ih =>
    obtain ⟨b, r, rfl, -, hv, -, hr⟩ := exists_of_words_eq_cons hws
    rcases List.mem_cons.mp h with rfl | h
    · exact hv
    · exact ih hr h

/-! ### Collapsed texts -/

theorem toList_collapsed (s : List Char) :
    (collapsed s).toList = [' '].intercalate (words s) := by
  rw [collapsed, String.toList_intercalate]
  simp [Function.comp_def]

theorem intercalate_words_cons {w : List Char} {ws : List (List Char)} (h : ws ≠ []) :
    [' '].intercalate (w :: ws) = w ++ ' ' :: [' '].intercalate ws := by
  rw [List.intercalate_cons_of_ne_nil h, List.append_assoc, List.singleton_append]

/-- Every blank is a single space between two characters that are not blank. -/
def Spaced (s : List Char) : Prop :=
  ∀ a c b, s = a ++ c :: b → isBlank c = true →
    c = ' ' ∧ (∃ x ∈ a.getLast?, isBlank x = false) ∧ ∃ y ∈ b.head?, isBlank y = false

theorem IsWord.spaced {w : List Char} (hw : IsWord w) : Spaced w := by
  rintro a c b rfl hc
  simp [hw.2 c (by simp)] at hc

theorem IsWord.spaced_append {w t : List Char} (hw : IsWord w) (ht : Spaced t)
    (hhead : ∃ y ∈ t.head?, isBlank y = false) : Spaced (w ++ ' ' :: t) := by
  intro a c b hs hc
  -- the blank stands in the first word, right behind it, or in the rest
  rcases List.append_eq_append_iff.mp hs with ⟨d, rfl, hd⟩ | ⟨d, rfl, hd⟩
  · cases d with
    | nil =>
      cases hd
      refine ⟨rfl, ⟨w.getLast hw.1, ?_, hw.2 _ (List.getLast_mem hw.1)⟩, hhead⟩
      rw [List.append_nil]
      exact List.getLast?_eq_some_getLast hw.1
    | cons x d =>
      obtain ⟨rfl, rfl⟩ := List.cons.inj hd
      obtain ⟨rfl, ⟨x, hx, hxb⟩, hb⟩ := ht d c b rfl hc
      refine ⟨rfl, ⟨x, ?_, hxb⟩, hb⟩
      rw [List.getLast?_append, List.getLast?_cons, hx]
      rfl
  · cases d with
    | nil =>
      cases hd
      refine ⟨rfl, ⟨a.getLast (by simpa using hw.1), ?_, hw.2 _ ?_⟩, hhead⟩
      · exact List.getLast?_eq_some_getLast _
      · simp
    | cons x d =>
      obtain ⟨rfl, -⟩ := List.cons.inj hd
      simp [hw.2 c (by simp)] at hc

theorem Spaced.of_append {s t : List Char} (h : Spaced (s ++ ' ' :: t)) : Spaced t := by
  rintro a c b rfl hc
  obtain ⟨rfl, ⟨x, hx, hxb⟩, hb⟩ := h (s ++ ' ' :: a) c b (by simp) hc
  refine ⟨rfl, ⟨x, ?_, hxb⟩, hb⟩
  rw [List.getLast?_append, List.getLast?_cons] at hx
  cases ha : a.getLast? with
  | none =>
    simp only [ha, Option.getD_none, Option.some_or, Option.mem_def, Option.some.injEq] at hx
    simp [← hx, isBlank_space] at hxb
  | some y => simpa [ha] using hx

theorem Spaced.isBlank_head? {s : List Char} (h : Spaced s) : ∀ c ∈ s.head?, isBlank c = false := by
  intro c hc
  obtain ⟨t, rfl⟩ := List.head?_eq_some_iff.mp hc
  by_contra hb
  obtain ⟨-, ⟨x, hx, -⟩, -⟩ := h [] c t rfl (by simpa using hb)
  cases hx

theorem Spaced.isBlank_getLast? {s : List Char} (h : Spaced s) :
    ∀ c ∈ s.getLast?, isBlank c = false := by
  intro c hc
  obtain ⟨t, rfl⟩ := List.getLast?_eq_some_iff.mp hc
  by_contra hb
  obtain ⟨-, -, y, hy, -⟩ := h t c [] rfl (by simpa using hb)
  cases hy

theorem head?_intercalate_words {w : List Char} (hw : IsWord w) (ws : List (List Char)) :
    ∃ c ∈ ([' '].intercalate (w :: ws)).head?, isBlank c = false := by
  obtain ⟨c, t, rfl⟩ := List.exists_cons_of_ne_nil hw.1
  refine ⟨c, ?_, hw.2 c List.mem_cons_self⟩
  cases ws with
  | nil => simp
  | cons v ws => simp [List.intercalate_cons_cons]

theorem spaced_intercalate {ws : List (List Char)} (h : ∀ w ∈ ws, IsWord w) :
    Spaced ([' '].intercalate ws) := by
  induction ws with
  | nil =>
    intro a c b hs
    simp at hs
  | cons w ws ih =>
    have hw : IsWord w := h w List.mem_cons_self
    cases ws with
    | nil =>
      rw [List.intercalate_singleton]
      exact hw.spaced
    | cons v ws =>
      rw [intercalate_words_cons (List.cons_ne_nil v ws)]
      exact hw.spaced_append (ih fun x hx => h x (List.mem_cons_of_mem w hx))
        (head?_intercalate_words (h v (by simp)) ws)

/-- Nothing is left to collapse in a spaced text. -/
theorem intercalate_words_eq_self {s : List Char} (h : Spaced s) :
    [' '].intercalate (words s) = s := by
  generalize hws : words s = ws
  induction ws generalizing s with
  | nil =>
    cases s with
    | nil => rfl
    | cons c s =>
      have hc := words_eq_nil_iff.mp hws c List.mem_cons_self
      simp [h.isBlank_head? c rfl] at hc
  | cons w ws ih =>
    obtain ⟨b, r, rfl, hb, hw, hr, hrs⟩ := exists_of_words_eq_cons hws
    have hb : b = [] := by
      cases b with
      | nil => rfl
      | cons c b =>
        have hc := hb c List.mem_cons_self
        simp [h.isBlank_head? c rfl] at hc
    subst hb
    cases r with
    | nil =>
      rw [words_nil] at hrs
      simp [← hrs]
    | cons c r =>
      have hc : isBlank c = true := hr c rfl
      obtain ⟨rfl, -, y, hy, hyb⟩ := h w c r rfl hc
      rw [words_cons_of_blank hc] at hrs
      have hne : ws ≠ [] := by
        rintro rfl
        have hyr := words_eq_nil_iff.mp hrs y (List.mem_of_mem_head? hy)
        simp [hyr] at hyb
      rw [intercalate_words_cons hne, ih (Spaced.of_append h) hrs, List.nil_append]

theorem spaced_collapsed (s : List Char) : Spaced (collapsed s).toList := by
  rw [toList_collapsed]
  exact spaced_intercalate fun w hw => isWord_of_mem_words hw

theorem collapsed_of_spaced {s : List Char} (h : Spaced s) : collapsed s = String.ofList s := by
  rw [← String.toList_inj, toList_collapsed, intercalate_words_eq_self h, String.toList_ofList]

/-! ### What stands in a collapsed text -/

/-- A text without a given character that stands in two texts with that character between them
stands in one of them. -/
theorem infix_of_infix_append_cons {u s t : List Char} {c : Char} (hc : c ∉ u)
    (h : u <:+: s ++ c :: t) : u <:+: s ∨ u <:+: t := by
  have hfront {v : List Char} (hv : c ∉ v) (hp : v <+: c :: t) : v = [] := by
    rcases List.prefix_cons_iff.mp hp with rfl | ⟨v, rfl, -⟩
    · rfl
    · simp at hv
  rcases List.infix_append_iff.mp h with hs | ht | ⟨u₁, u₂, rfl, h₁, h₂⟩
  · exact .inl hs
  · rcases List.infix_cons_iff.mp ht with hp | ht
    · rw [hfront hc hp]
      exact .inl List.nil_infix
    · exact .inr ht
  · rw [hfront (fun hm => hc (List.mem_append_right u₁ hm)) h₂, List.append_nil]
    exact .inl h₁.isInfix

theorem space_notMem {u : List Char} (hu : ∀ c ∈ u, isBlank c = false) : ' ' ∉ u := fun hm => by
  simpa [isBlank_space] using hu ' ' hm

/-- What has no blank in it and stands in the collapsed text stood in the text before. -/
theorem infix_of_infix_collapsed {s u : List Char} (hu : ∀ c ∈ u, isBlank c = false)
    (h : u <:+: (collapsed s).toList) : u <:+: s := by
  rw [toList_collapsed] at h
  generalize hws : words s = ws at h
  induction ws generalizing s with
  | nil =>
    rw [List.infix_nil.mp h]
    exact List.nil_infix
  | cons w ws ih =>
    obtain ⟨b, r, rfl, -, -, -, hr⟩ := exists_of_words_eq_cons hws
    have hword : w <:+: b ++ (w ++ r) := List.infix_append' b w r
    have hrest : r <:+: b ++ (w ++ r) :=
      List.infix_append_of_infix_right (List.suffix_append w r).isInfix
    cases ws with
    | nil =>
      rw [List.intercalate_singleton] at h
      exact h.trans hword
    | cons v ws =>
      rw [intercalate_words_cons (List.cons_ne_nil v ws)] at h
      rcases infix_of_infix_append_cons (space_notMem hu) h with h | h
      · exact h.trans hword
      · exact (ih hr h).trans hrest

/-- A cut through the collapsed text comes from a cut through the text before. -/
theorem exists_cut_of_collapsed {s p q : List Char} (h : (collapsed s).toList = p ++ q) :
    ∃ p' q', s = p' ++ q' ∧ ∀ u, (∀ c ∈ u, isBlank c = false) →
      (u <:+: p → u <:+: p') ∧ (u <:+: q → u <:+: q') := by
  rw [toList_collapsed] at h
  generalize hws : words s = ws at h
  induction ws generalizing s p with
  | nil =>
    obtain ⟨rfl, rfl⟩ := List.append_eq_nil_iff.mp h.symm
    exact ⟨[], s, rfl, fun u _ => ⟨id, fun hu => hu.trans List.nil_infix⟩⟩
  | cons w ws ih =>
    obtain ⟨b, r, rfl, -, -, -, hr⟩ := exists_of_words_eq_cons hws
    cases ws with
    | nil =>
      rw [List.intercalate_singleton] at h
      subst h
      exact ⟨b ++ p, q ++ r, by simp, fun u _ =>
        ⟨List.infix_append_of_infix_right, List.infix_append_of_infix_left⟩⟩
    | cons v ws =>
      rw [intercalate_words_cons (List.cons_ne_nil v ws)] at h
      -- the cut goes through the first word or the space behind it, or through the rest
      have hcut : (∃ d, w = p ++ d ∧ q = d ++ ' ' :: [' '].intercalate (v :: ws)) ∨
          ∃ d, p = w ++ ' ' :: d ∧ [' '].intercalate (v :: ws) = d ++ q := by
        rcases List.append_eq_append_iff.mp h with ⟨_ | ⟨c, d⟩, hp, hd⟩ | hd
        · exact .inl ⟨[], by simpa using hp.symm, hd.symm⟩
        · obtain ⟨rfl, ht⟩ := List.cons.inj hd
          exact .inr ⟨d, hp, ht⟩
        · exact .inl hd
      rcases hcut with ⟨d, rfl, rfl⟩ | ⟨d, rfl, hd⟩
      · refine ⟨b ++ p, d ++ r, by simp, fun u hu =>
          ⟨List.infix_append_of_infix_right, fun hq => ?_⟩⟩
        rcases infix_of_infix_append_cons (space_notMem hu) hq with hq | hq
        · exact List.infix_append_of_infix_left hq
        · rw [← hr, ← toList_collapsed] at hq
          exact List.infix_append_of_infix_right (infix_of_infix_collapsed hu hq)
      · obtain ⟨p', q', rfl, hpq⟩ := ih hr hd
        refine ⟨b ++ (w ++ p'), q', by simp, fun u hu => ⟨fun hp => ?_, (hpq u hu).2⟩⟩
        refine List.infix_append_of_infix_right ?_
        rcases infix_of_infix_append_cons (space_notMem hu) hp with hp | hp
        · exact List.infix_append_of_infix_left hp
        · exact List.infix_append_of_infix_right ((hpq u hu).1 hp)

end DesignDoc.Text
