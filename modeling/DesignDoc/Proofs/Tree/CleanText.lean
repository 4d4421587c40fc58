import DesignDoc.Proofs.Text.Spacing
import DesignDoc.Tree.CleanText
import Mathlib.Data.List.Infix

/-! When source text is cleaned exactly of its comments. A commented text is put together from code,
line comments and block comments. Line comments are dropped first, so a block comment is removed as
one only while its closing mark survives that pass: no two slashes stand on its last line, and no
other comment follows it at once. Under that condition nothing but the code is left, whatever the
comments say. Without it the rest of the line goes together with the closing mark, and the comment
stays open up to the next one that is closed, or for good. -/

namespace DesignDoc.Tree

/-! ### The pass over line comments -/

/-- Whether a line comment is open behind a text. -/
def lineOpen : Bool → List Char → Bool
  | f, [] => f
  | true, c :: s => if c = '\n' then lineOpen false s else lineOpen true s
  | false, '/' :: '/' :: s => lineOpen true s
  | false, _ :: s => lineOpen false s

/-- What follows the last line feed. -/
def lastLine : List Char → List Char
  | [] => []
  | c :: s => if '\n' ∈ c :: s then lastLine s else c :: s

theorem lastLine_of_notMem {s : List Char} (h : '\n' ∉ s) : lastLine s = s := by
  cases s with
  | nil => rfl
  | cons c s => rw [lastLine, if_neg h]

theorem lastLine_cons_of_mem {c : Char} {s : List Char} (h : '\n' ∈ s) :
    lastLine (c :: s) = lastLine s := by
  rw [lastLine, if_pos (List.mem_cons_of_mem c h)]

/-- A comment is open behind a text iff it began on the last line, or before the text and nothing
ended it. -/
theorem lineOpen_eq_true_iff (f : Bool) (s : List Char) :
    lineOpen f s = true ↔ f = true ∧ '\n' ∉ s ∨ ['/', '/'] <:+: lastLine s := by
  fun_induction lineOpen f s with
  | case1 f => simp [lastLine]
  | case2 s ih => simp [ih, lastLine]
  | case3 c s hc ih =>
    by_cases hs : '\n' ∈ s
    · simp [ih, hs, lastLine_cons_of_mem]
    · simp [ih, hs, Ne.symm hc]
  | case4 s ih =>
    by_cases hs : '\n' ∈ s
    · simp [ih, hs, lastLine_cons_of_mem]
    · have hl : lastLine ('/' :: '/' :: s) = '/' :: '/' :: s :=
        lastLine_of_notMem (by simp [hs])
      simp only [ih, hl, hs, true_and, not_false_eq_true, true_or, Bool.false_eq_true, false_and,
        false_or, true_iff]
      exact ⟨[], s, rfl⟩
  | case5 c s hc ih =>
    simp only [ih, Bool.false_eq_true, false_and, false_or]
    by_cases hs : '\n' ∈ c :: s
    · rw [lastLine, if_pos hs]
    · rw [lastLine_of_notMem hs, lastLine_of_notMem fun h => hs (List.mem_cons_of_mem c h),
        List.infix_cons_iff]
      refine ⟨.inr, fun h => h.resolve_left fun hp => ?_⟩
      obtain ⟨t, ht⟩ := hp
      cases ht
      exact hc t rfl rfl

theorem lineOpen_eq_false {s : List Char} (h : ¬ ['/', '/'] <:+: lastLine s) :
    lineOpen false s = false := by
  rw [Bool.eq_false_iff, ne_eq, lineOpen_eq_true_iff]
  simpa using h

theorem dropLineComments_cons {c : Char} {s : List Char} (h : c = '/' → s.head? ≠ some '/') :
    dropLineComments false (c :: s) = c :: dropLineComments false s := by
  rw [dropLineComments]
  rintro t rfl rfl
  exact h rfl rfl

/-- The pass over two texts, when the second does not begin with a slash that may belong to the
first. -/
theorem dropLineComments_append (f : Bool) (s : List Char) {t : List Char}
    (ht : t.head? ≠ some '/') :
    dropLineComments f (s ++ t) = dropLineComments f s ++ dropLineComments (lineOpen f s) t := by
  fun_induction lineOpen f s with
  | case1 f => simp [dropLineComments]
  | case2 s ih => simpa [dropLineComments] using ih
  | case3 c s hc ih => simpa [dropLineComments, hc] using ih
  | case4 s ih => simpa [dropLineComments] using ih
  | case5 c s hc ih =>
    have hs : c = '/' → s.head? ≠ some '/' := by
      rintro rfl h
      obtain ⟨r, rfl⟩ := List.head?_eq_some_iff.mp h
      exact hc r rfl rfl
    have hst : c = '/' → (s ++ t).head? ≠ some '/' := by
      intro h
      cases s with
      | nil => exact ht
      | cons d s => exact hs h
    rw [List.cons_append, dropLineComments_cons hst, dropLineComments_cons hs, ih, List.cons_append]

theorem dropLineComments_open {s : List Char} (hs : '\n' ∉ s) (t : List Char) :
    dropLineComments true (s ++ t) = dropLineComments true t := by
  induction s with
  | nil => rfl
  | cons c s ih =>
    have hc : c ≠ '\n' := (List.ne_of_not_mem_cons hs).symm
    rw [List.cons_append, dropLineComments, if_neg hc, ih (List.not_mem_of_not_mem_cons hs)]

theorem head?_of_dropLineComments {s : List Char}
    (h : (dropLineComments false s).head? = some '/') : s.head? = some '/' := by
  cases s with
  | nil => simp [dropLineComments] at h
  | cons c s =>
    by_cases hc : c = '/'
    · rw [hc, List.head?_cons]
    · rw [dropLineComments_cons fun h => absurd h hc] at h
      exact h

/-- The pass makes no closing mark. -/
theorem closing_of_dropLineComments {f : Bool} {s : List Char}
    (h : ['*', '/'] <:+: dropLineComments f s) : ['*', '/'] <:+: s := by
  fun_induction dropLineComments f s with
  | case1 f => exact h
  | case2 s ih =>
    rcases List.infix_cons_iff.mp h with hp | hi
    · simp at hp
    · exact (ih hi).trans (List.suffix_cons _ s).isInfix
  | case3 c s hc ih => exact (ih h).trans (List.suffix_cons c s).isInfix
  | case4 s ih => exact (ih h).trans (List.suffix_append ['/', '/'] s).isInfix
  | case5 c s hc ih =>
    rcases List.infix_cons_iff.mp h with hp | hi
    · obtain ⟨t, ht⟩ := hp
      obtain ⟨rfl, ht'⟩ := List.cons.inj ht
      have hd : (dropLineComments false s).head? = some '/' := by rw [← ht']; rfl
      obtain ⟨r, rfl⟩ := List.head?_eq_some_iff.mp (head?_of_dropLineComments hd)
      exact ⟨[], r, rfl⟩
    · exact (ih hi).trans (List.suffix_cons c s).isInfix

/-! ### The pass over block comments -/

theorem dropBlockComments_cons {c : Char} (hc : c ≠ '/') (s : List Char) :
    dropBlockComments none (c :: s) = c :: dropBlockComments none s := by
  rw [dropBlockComments]
  rintro t rfl
  exact absurd rfl hc

theorem dropBlockComments_held (held : List Char) {c : Char} {s : List Char}
    (h : ¬ ['*', '/'] <+: c :: s) :
    dropBlockComments (some held) (c :: s) = dropBlockComments (some (c :: held)) s := by
  rw [dropBlockComments]
  rintro t rfl rfl
  exact h ⟨t, rfl⟩

/-- An open comment ends at the first closing mark. -/
theorem dropBlockComments_close (held : List Char) {s : List Char} (hs : ¬ ['*', '/'] <:+: s)
    (t : List Char) :
    dropBlockComments (some held) (s ++ '*' :: '/' :: t) = dropBlockComments none t := by
  induction s generalizing held with
  | nil => rw [List.nil_append, dropBlockComments]
  | cons c s ih =>
    obtain ⟨hp, hi⟩ := not_or.mp (mt List.infix_cons_iff.mpr hs)
    rw [List.cons_append, dropBlockComments_held, ih _ hi]
    -- the closing mark cannot begin at `c`: its slash would be the next character
    rintro ⟨r, hr⟩
    cases s with
    | nil => simp at hr
    | cons d s =>
      simp only [List.cons_append, List.nil_append, List.cons.injEq] at hr
      exact hp (by simp [← hr.1, ← hr.2.1])

/-- A comment that is never closed stays. -/
theorem dropBlockComments_unclosed (held : List Char) {s : List Char} (hs : ¬ ['*', '/'] <:+: s) :
    dropBlockComments (some held) s = held.reverse ++ s := by
  induction s generalizing held with
  | nil => rw [dropBlockComments, List.append_nil]
  | cons c s ih =>
    obtain ⟨hp, hi⟩ := not_or.mp (mt List.infix_cons_iff.mpr hs)
    rw [dropBlockComments_held held hp, ih _ hi, List.reverse_cons, List.append_assoc,
      List.singleton_append]

/-! ### Commented texts -/

/-- A piece of a text. Code has neither of the characters that make up the marks of comments. -/
inductive Piece where
  | code (s : List Char) (h : '/' ∉ s ∧ '*' ∉ s)
  | line (s : List Char) (h : '\n' ∉ s)
  | block (s : List Char) (h : ¬ ['*', '/'] <:+: s)

namespace Piece

def chars : Piece → List Char
  | code s _ => s
  | line s _ => '/' :: '/' :: (s ++ ['\n'])
  | block s _ => '/' :: '*' :: (s ++ ['*', '/'])

/-- What is left of a piece without its comments. -/
def kept : Piece → List Char
  | code s _ => s
  | line _ _ => ['\n']
  | block _ _ => []

def isBlock : Piece → Bool
  | block _ _ => true
  | _ => false

/-- The closing mark of a block comment is there after the line comments are dropped. -/
def Sealed : Piece → List Char → Prop
  | block s _, rest => ¬ ['/', '/'] <:+: lastLine s ∧ rest.head? ≠ some '/'
  | _, _ => True

instance (p : Piece) (rest : List Char) : Decidable (p.Sealed rest) :=
  match p with
  | block s _ => inferInstanceAs (Decidable (¬ ['/', '/'] <:+: lastLine s ∧ rest.head? ≠ some '/'))
  | code _ _ => isTrue trivial
  | line _ _ => isTrue trivial

end Piece

/-- Pieces in order, and behind them the line comment that only the end of the text ends. -/
structure Commented where
  pieces : List Piece
  last : Option {s : List Char // '\n' ∉ s}

namespace Commented

def tail (t : Commented) : List Char :=
  match t.last with
  | none => []
  | some s => '/' :: '/' :: s.1

def chars (t : Commented) : List Char := t.pieces.flatMap Piece.chars ++ t.tail

/-- The text with its comments taken out. -/
def code (t : Commented) : List Char := t.pieces.flatMap Piece.kept

end Commented

/-- Every block comment among pieces is sealed in the text that follows it. -/
def AllSealed : List Piece → List Char → Prop
  | [], _ => True
  | p :: ps, rest => p.Sealed (ps.flatMap Piece.chars ++ rest) ∧ AllSealed ps rest

instance decidableAllSealed : (ps : List Piece) → (rest : List Char) → Decidable (AllSealed ps rest)
  | [], _ => isTrue trivial
  | p :: ps, rest =>
    have := decidableAllSealed ps rest
    inferInstanceAs
      (Decidable (p.Sealed (ps.flatMap Piece.chars ++ rest) ∧ AllSealed ps rest))

/-! ### Sealed comments are removed exactly -/

theorem dropBlockComments_code {s : List Char} (hs : '/' ∉ s) (t : List Char) :
    dropBlockComments none (s ++ t) = s ++ dropBlockComments none t := by
  induction s with
  | nil => rfl
  | cons c s ih =>
    have hc : c ≠ '/' := (List.ne_of_not_mem_cons hs).symm
    rw [List.cons_append, dropBlockComments_cons hc, ih (List.not_mem_of_not_mem_cons hs),
      List.cons_append]

theorem dropLineComments_code {s : List Char} (hs : '/' ∉ s) (t : List Char) :
    dropLineComments false (s ++ t) = s ++ dropLineComments false t := by
  induction s with
  | nil => rfl
  | cons c s ih =>
    have hc : c ≠ '/' := (List.ne_of_not_mem_cons hs).symm
    rw [List.cons_append, dropLineComments_cons fun h => absurd h hc,
      ih (List.not_mem_of_not_mem_cons hs), List.cons_append]

theorem dropLineComments_line {s : List Char} (hs : '\n' ∉ s) (t : List Char) :
    dropLineComments true (s ++ '\n' :: t) = '\n' :: dropLineComments false t := by
  rw [dropLineComments_open hs, dropLineComments, if_pos rfl]

/-- The line comments are dropped from a block comment and what follows it apart. -/
theorem dropLineComments_block (s t : List Char) :
    dropLineComments false ('/' :: '*' :: (s ++ '*' :: t)) =
      '/' :: '*' :: (dropLineComments false s ++
        dropLineComments (lineOpen false s) ('*' :: t)) := by
  rw [dropLineComments_cons (by simp), dropLineComments_cons (by simp),
    dropLineComments_append false s (by simp)]

/-- A piece leaves what it should, and what follows it is cleaned as if it stood alone. -/
theorem dropComments_piece {p : Piece} {rest : List Char} (hp : p.Sealed rest) :
    dropBlockComments none (dropLineComments false (p.chars ++ rest)) =
      p.kept ++ dropBlockComments none (dropLineComments false rest) := by
  cases p with
  | code s h =>
    rw [Piece.chars, dropLineComments_code h.1, dropBlockComments_code h.1, Piece.kept]
  | line s h =>
    rw [Piece.chars, List.cons_append, List.cons_append, List.append_assoc, List.singleton_append,
      dropLineComments, dropLineComments_line h, dropBlockComments_cons (by simp), Piece.kept,
      List.singleton_append]
  | block s h =>
    obtain ⟨hs, hr⟩ := hp
    have hd : ¬ ['*', '/'] <:+: dropLineComments false s := mt closing_of_dropLineComments h
    simp only [Piece.chars, List.cons_append, List.append_assoc, List.nil_append]
    rw [dropLineComments_block, lineOpen_eq_false hs, dropLineComments_cons (by simp),
      dropLineComments_cons fun _ => hr, dropBlockComments, dropBlockComments_close _ hd, Piece.kept,
      List.nil_append]

theorem dropComments_pieces {ps : List Piece} {rest : List Char} (h : AllSealed ps rest) :
    dropBlockComments none (dropLineComments false (ps.flatMap Piece.chars ++ rest)) =
      ps.flatMap Piece.kept ++ dropBlockComments none (dropLineComments false rest) := by
  induction ps with
  | nil => rfl
  | cons p ps ih =>
    rw [List.flatMap_cons, List.append_assoc, dropComments_piece h.1, ih h.2, List.flatMap_cons,
      List.append_assoc]

namespace Commented

theorem dropLineComments_tail (f : Bool) (t : Commented) : dropLineComments f t.tail = [] := by
  unfold tail
  cases t.last with
  | none => simp [dropLineComments]
  | some s =>
    have hs : dropLineComments true s.1 = [] := by
      rw [← List.append_nil s.1, dropLineComments_open s.2, dropLineComments]
    cases f <;> simp [dropLineComments, hs]

/-- Every block comment of a text is sealed: no two slashes stand on its last line, and it is not
followed by a comment at once. -/
def Intact (t : Commented) : Prop := AllSealed t.pieces t.tail

instance (t : Commented) : Decidable t.Intact := inferInstanceAs (Decidable (AllSealed _ _))

theorem dropComments_of_intact {t : Commented} (h : t.Intact) :
    dropBlockComments none (dropLineComments false t.chars) = t.code := by
  rw [chars, dropComments_pieces h, dropLineComments_tail, dropBlockComments, List.append_nil, code]

end Commented

/-! ### A comment that is not sealed -/

theorem slash_notMem_append {s rest : List Char} (hs : '/' ∉ s)
    (hr : ∀ f, '/' ∉ dropLineComments f rest) (f : Bool) :
    '/' ∉ dropLineComments f (s ++ rest) := by
  induction s generalizing f with
  | nil => exact hr f
  | cons c s ih =>
    have hc : c ≠ '/' := (List.ne_of_not_mem_cons hs).symm
    have ih := ih (List.not_mem_of_not_mem_cons hs)
    rw [List.cons_append]
    cases f with
    | false =>
      rw [dropLineComments_cons fun h => absurd h hc]
      simp [Ne.symm hc, ih]
    | true =>
      rw [dropLineComments]
      split
      · simp [Ne.symm hc, ih]
      · exact ih true

/-- No slash outside of block comments survives the first pass. -/
theorem slash_notMem_of_not_block {ps : List Piece} (h : ∀ p ∈ ps, p.isBlock = false)
    {rest : List Char} (hr : ∀ f, '/' ∉ dropLineComments f rest) (f : Bool) :
    '/' ∉ dropLineComments f (ps.flatMap Piece.chars ++ rest) := by
  induction ps generalizing f with
  | nil => exact hr f
  | cons p ps ih =>
    have ih := ih fun q hq => h q (List.mem_cons_of_mem p hq)
    rw [List.flatMap_cons, List.append_assoc]
    cases p with
    | code s hs => exact slash_notMem_append hs.1 ih f
    | line s hs =>
      simp only [Piece.chars, List.cons_append, List.append_assoc, List.nil_append]
      cases f <;> simp [dropLineComments, dropLineComments_line hs, ih]
    | block s hs => exact absurd (h _ List.mem_cons_self) (by simp [Piece.isBlock])

theorem closing_of_append {s t : List Char} (ht : '/' ∉ t) (h : ['*', '/'] <:+: s ++ t) :
    ['*', '/'] <:+: s := by
  induction s with
  | nil => exact absurd (h.subset (by simp)) ht
  | cons c s ih =>
    rw [List.cons_append, List.infix_cons_iff, List.cons_prefix_cons] at h
    rcases h with ⟨rfl, hp⟩ | hi
    · cases s with
      | nil => exact absurd (hp.subset (by simp)) ht
      | cons d s =>
        rw [List.cons_append, List.cons_prefix_cons] at hp
        exact ⟨[], s, by rw [← hp.1]; rfl⟩
    · exact (ih hi).trans (List.suffix_cons c s).isInfix

/-- The closing mark of a block comment that is not sealed goes with the rest of its line. -/
theorem dropLineComments_unsealed {s rest : List Char} {h : ¬ ['*', '/'] <:+: s}
    (hs : ¬ (Piece.block s h).Sealed rest) (hr : '/' ∉ dropLineComments true rest) :
    ∃ u, ¬ ['*', '/'] <:+: u ∧
      dropLineComments false ((Piece.block s h).chars ++ rest) = '/' :: '*' :: u := by
  have hd : ¬ ['*', '/'] <:+: dropLineComments false s := mt closing_of_dropLineComments h
  refine ⟨dropLineComments false s ++ dropLineComments (lineOpen false s) ('*' :: '/' :: rest),
    fun hu => hd (closing_of_append ?_ hu), ?_⟩
  · by_cases hl : ['/', '/'] <:+: lastLine s
    · have hl : lineOpen false s = true := (lineOpen_eq_true_iff _ _).mpr (.inr hl)
      simpa [hl, dropLineComments] using hr
    · -- the slash of the closing mark and the one that follows it open a comment
      obtain ⟨r, rfl⟩ : ∃ r, rest = '/' :: r := by
        rw [← List.head?_eq_some_iff]
        exact not_not.mp fun hn => hs ⟨hl, hn⟩
      rw [lineOpen_eq_false hl, dropLineComments_cons (by simp), dropLineComments]
      simpa [dropLineComments] using hr
  · simp only [Piece.chars, List.cons_append, List.append_assoc, List.nil_append]
    exact dropLineComments_block s _

theorem allSealed_append {ps qs : List Piece} {rest : List Char} :
    AllSealed (ps ++ qs) rest ↔
      AllSealed ps (qs.flatMap Piece.chars ++ rest) ∧ AllSealed qs rest := by
  induction ps with
  | nil => simp [AllSealed]
  | cons p ps ih => simp [AllSealed, ih, and_assoc]

/-- The first block comment that is not sealed. -/
theorem exists_first_unsealed {ps : List Piece} {rest : List Char} (h : ¬ AllSealed ps rest) :
    ∃ qs s hs rs, ps = qs ++ Piece.block s hs :: rs ∧
      AllSealed qs ((Piece.block s hs :: rs).flatMap Piece.chars ++ rest) ∧
      ¬ (Piece.block s hs).Sealed (rs.flatMap Piece.chars ++ rest) := by
  induction ps with
  | nil => exact absurd trivial h
  | cons p ps ih =>
    by_cases hp : p.Sealed (ps.flatMap Piece.chars ++ rest)
    · obtain ⟨qs, s, hs, rs, rfl, hq, hb⟩ := ih fun hps => h ⟨hp, hps⟩
      refine ⟨p :: qs, s, hs, rs, rfl, ⟨?_, hq⟩, hb⟩
      simpa using hp
    · cases p with
      | code s hs => exact absurd trivial hp
      | line s hs => exact absurd trivial hp
      | block s hs => exact ⟨[], s, hs, ps, rfl, trivial, hp⟩

/-! ### Characters of the cleaned text -/

theorem mem_flatten_words {c : Char} (hc : Text.isBlank c = false) (s : List Char) :
    c ∈ (Text.words s).flatten ↔ c ∈ s := by
  rw [Text.words, List.flatten_filter_not_isEmpty]
  induction s with
  | nil => simp
  | cons d s ih =>
    rw [List.splitOnP_cons_eq_if_modifyHead]
    by_cases hd : Text.isBlank d = true
    · have hcd : c ≠ d := fun h => by simp [← h, hc] at hd
      rw [if_pos hd, List.flatten_cons, List.nil_append, ih, List.mem_cons, or_iff_right hcd]
    · obtain ⟨w, ws, hw⟩ := List.exists_cons_of_ne_nil (List.splitOnP_ne_nil Text.isBlank s)
      rw [hw] at ih
      rw [if_neg hd, hw, List.modifyHead_cons, List.flatten_cons, List.cons_append, List.mem_cons,
        List.mem_cons, ← List.flatten_cons, ih]

theorem mem_intercalate_of_ne {c d : Char} (hc : c ≠ d) (ws : List (List Char)) :
    c ∈ [d].intercalate ws ↔ c ∈ ws.flatten := by
  induction ws with
  | nil => simp
  | cons w ws ih =>
    cases ws with
    | nil => simp
    | cons v ws =>
      rw [List.intercalate_cons_cons, List.flatten_cons, List.mem_append, List.mem_append,
        List.mem_append, ih, List.mem_singleton, or_iff_left hc]

/-- Collapsing blanks loses and makes no other character. -/
theorem mem_collapsed {c : Char} (hc : Text.isBlank c = false) (s : List Char) :
    c ∈ (Text.collapsed s).toList ↔ c ∈ s := by
  have hs : c ≠ ' ' := fun h => by simp [h, Text.isBlank_space] at hc
  rw [Text.toList_collapsed]
  exact (mem_intercalate_of_ne hs _).trans (mem_flatten_words hc s)

/-! ### When a text is cleaned exactly -/

namespace Commented

theorem slash_notMem_code (t : Commented) : '/' ∉ t.code := by
  intro h
  obtain ⟨p, -, hp⟩ := List.mem_flatMap.mp h
  cases p with
  | code s hs => exact hs.1 hp
  | line s hs => simp [Piece.kept] at hp
  | block s hs => simp [Piece.kept] at hp

/-- The opening mark of a block comment stays if the comment is not sealed and none comes after
it. -/
theorem cleanText_ne_of_unsealed {t : Commented} {ps qs : List Piece} {s : List Char}
    {hs : ¬ ['*', '/'] <:+: s} (ht : t.pieces = ps ++ .block s hs :: qs)
    (hp : AllSealed ps ((Piece.block s hs :: qs).flatMap Piece.chars ++ t.tail))
    (hb : ¬ (Piece.block s hs).Sealed (qs.flatMap Piece.chars ++ t.tail))
    (hq : ∀ q ∈ qs, q.isBlock = false) : cleanText t.chars ≠ Text.collapsed t.code := by
  have htail (f : Bool) : '/' ∉ dropLineComments f t.tail := by
    rw [dropLineComments_tail]
    exact List.not_mem_nil
  obtain ⟨u, hu, hd⟩ := dropLineComments_unsealed hb (slash_notMem_of_not_block hq htail true)
  have hm : '/' ∈ dropBlockComments none (dropLineComments false t.chars) := by
    rw [chars, ht, List.flatMap_append, List.append_assoc, dropComments_pieces hp, List.flatMap_cons,
      List.append_assoc, hd, dropBlockComments, dropBlockComments_unclosed _ hu]
    simp
  intro h
  have hc : Text.isBlank '/' = false := by decide
  have hm := (mem_collapsed hc _).mpr hm
  rw [← cleanText, h, mem_collapsed hc] at hm
  exact t.slash_notMem_code hm

/-- A text is cleaned exactly of its comments if every block comment is sealed. Where all before
the last one are, it is cleaned exactly only then. -/
theorem cleanText_exact (t : Commented) :
    (t.Intact → cleanText t.chars = Text.collapsed t.code) ∧
      ∀ ps qs, t.pieces = ps ++ qs → AllSealed ps (qs.flatMap Piece.chars ++ t.tail) →
        qs.countP Piece.isBlock ≤ 1 →
        (cleanText t.chars = Text.collapsed t.code ↔ t.Intact) := by
  have hi : t.Intact → cleanText t.chars = Text.collapsed t.code := fun h => by
    rw [cleanText, dropComments_of_intact h]
  refine ⟨hi, fun ps qs ht hps hq => ⟨fun h => ?_, hi⟩⟩
  by_contra hn
  have hqs : ¬ AllSealed qs t.tail := fun hqs => hn (by
    rw [Intact, ht]
    exact allSealed_append.mpr ⟨hps, hqs⟩)
  obtain ⟨xs, s, hs, ys, rfl, hx, hb⟩ := exists_first_unsealed hqs
  have ht' : t.pieces = (ps ++ xs) ++ .block s hs :: ys := by rw [ht, List.append_assoc]
  have hy : ys.countP Piece.isBlock = 0 := by
    simp only [List.countP_append, List.countP_cons, Piece.isBlock, if_true] at hq
    omega
  refine cleanText_ne_of_unsealed ht' (allSealed_append.mpr ⟨?_, hx⟩) hb ?_ h
  · simpa using hps
  · simpa using hy

/-- Comments that hold the marks of comments, in every place where that does no harm. -/
def hostileSample : Commented where
  pieces :=
    [.code "logic ".toList (by decide), .block " // \n /* x *".toList (by decide),
      .code " [3:0] ".toList (by decide), .line " /* tail */ // *".toList (by decide),
      .code ", b".toList (by decide)]
  last := some ⟨"*/ end".toList, by decide⟩

theorem cleanText_exact_hostileSample :
    hostileSample.Intact ∧ cleanText hostileSample.chars = "logic [3:0] , b" := by
  have h : hostileSample.Intact := by decide
  have hc : Text.collapsed hostileSample.code = "logic [3:0] , b" := by cbv
  exact ⟨h, ((cleanText_exact hostileSample).1 h).trans hc⟩

/-- An address in a comment before a number. -/
def addressSample : Commented where
  pieces := [.block " see http://x.y ".toList (by decide), .code " 8".toList (by decide)]
  last := none

theorem address_comment_survives :
    addressSample.chars = "/* see http://x.y */ 8".toList ∧
      cleanText addressSample.chars = "/* see http:" ∧
      Text.collapsed addressSample.code = "8" := by
  refine ⟨by decide, ?_, ?_⟩ <;> cbv

end Commented

end DesignDoc.Tree
