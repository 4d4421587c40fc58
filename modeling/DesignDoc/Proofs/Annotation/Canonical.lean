import Mathlib.Data.List.Infix
import DesignDoc.Annotation.Comment
import DesignDoc.Proofs.Annotation.Grammar

/-! Which lists of items a block comment can say. The items of a comment are well formed, and every
list of well-formed items has a canonical comment, with one line for each piece of a text, from which
it is read back. -/

namespace DesignDoc.Annotation

open DesignDoc.Text

/-! ### Where a block comment ends -/

namespace Comment

/-- The text does not close a block comment. -/
def Unclosed (s : List Char) : Prop := ¬ ['*', '/'] <:+: s

instance (s : List Char) : Decidable (Unclosed s) :=
  inferInstanceAs (Decidable (¬ ['*', '/'] <:+: s))

theorem Unclosed.of_infix {s t : List Char} (h : Unclosed t) (hs : s <:+: t) : Unclosed s :=
  fun hc => h (hc.trans hs)

/-- A character that is not of the mark keeps two texts apart. -/
theorem unclosed_append_cons {c : Char} (h : c ∉ ['*', '/']) {s t : List Char} :
    Unclosed (s ++ c :: t) ↔ Unclosed s ∧ Unclosed t := by
  constructor
  · intro hst
    exact ⟨hst.of_infix (List.infix_append [] s _), hst.of_infix ⟨s ++ [c], [], by simp⟩⟩
  · rintro ⟨hs, ht⟩ hst
    rcases List.infix_append_iff.mp hst with hst | hst | ⟨l₁, l₂, hl, h₁, h₂⟩
    · exact hs hst
    · rcases List.infix_cons_iff.mp hst with hst | hst
      · obtain rfl := (List.cons_prefix_cons.mp hst).1
        exact h (by simp)
      · exact ht hst
    · cases l₂ with
      | nil =>
        rw [List.append_nil] at hl
        exact hs (hl ▸ h₁.isInfix)
      | cons d l₂ =>
        obtain rfl := (List.cons_prefix_cons.mp h₂).1
        exact h (hl ▸ by simp)

theorem unclosed_append_of_not_mem {s t : List Char} (hs : ∀ c ∈ s, c ∉ ['*', '/'])
    (ht : Unclosed t) : Unclosed (s ++ t) := by
  induction s with
  | nil => exact ht
  | cons c s ih =>
    obtain ⟨hc, hs⟩ := List.forall_mem_cons.mp hs
    exact (unclosed_append_cons (s := []) hc).mpr ⟨by simp [Unclosed], ih hs⟩

theorem unclosed_of_mem_pieces {p : List Char} {ps : List (List Char)}
    (h : Unclosed (p ++ ps.flatMap ('\n' :: ·))) : ∀ q ∈ p :: ps, Unclosed q := by
  induction ps generalizing p with
  | nil => simpa using h
  | cons q ps ih =>
    rw [List.flatMap_cons, List.cons_append, unclosed_append_cons (by decide)] at h
    exact List.forall_mem_cons.mpr ⟨h.1, ih h.2⟩

/-- What stands before the first mark. -/
theorem prefix_and_unclosed_of_untilClose? {s b : List Char} (h : untilClose? s = some b) :
    b <+: s ∧ Unclosed b := by
  fun_induction untilClose? s generalizing b with
  | case1 => cases h
  | case2 s =>
    obtain rfl := Option.some.inj h
    simp [Unclosed]
  | case3 c s hmark ih =>
    obtain ⟨b, hb, rfl⟩ := Option.map_eq_some_iff.mp h
    obtain ⟨hpre, hun⟩ := ih hb
    refine ⟨List.cons_prefix_cons.mpr ⟨rfl, hpre⟩, ?_⟩
    intro hc
    rcases List.infix_cons_iff.mp hc with hc | hc
    · obtain ⟨rfl, hslash⟩ := List.cons_prefix_cons.mp hc
      obtain ⟨t, ht⟩ := hslash.trans hpre
      exact hmark t rfl ht.symm
    · exact hun hc

theorem untilClose?_append {b : List Char} (h : Unclosed b) (s : List Char) :
    untilClose? (b ++ '*' :: '/' :: s) = some b := by
  induction b with
  | nil => simp [untilClose?]
  | cons c b ih =>
    rw [List.cons_append, untilClose?]
    · rw [ih (h.of_infix (List.suffix_cons c b).isInfix)]
      rfl
    · -- the mark does not start at `c`: its slash would be in `b`
      rintro t rfl ht
      cases b with
      | nil => simp at ht
      | cons d b =>
        obtain rfl := (List.cons.inj ht).1
        exact h (List.infix_append [] ['*', '/'] b)

/-- A block comment with a given text between its marks. -/
def block (b : List Char) : String := "/**" ++ String.ofList b ++ "*/"

theorem items_block {b : List Char} (h : Unclosed b) : items (block b) = parseBody b := by
  have hb : body (block b).toList = .ok b := by
    simp [block, body, untilClose?_append h]
  rw [items, hb]

/-- The items of a block comment are those of a body without the mark. -/
theorem exists_items_block (b : List Char) :
    ∃ b', Unclosed b' ∧ items (block b) = parseBody b' := by
  cases hb : untilClose? (b ++ ['*', '/']) with
  | none =>
    refine ⟨[], by simp [Unclosed], ?_⟩
    simp [items, block, body, hb, parseBody, parseLines]
  | some b' =>
    refine ⟨b', (prefix_and_unclosed_of_untilClose? hb).2, ?_⟩
    simp [items, block, body, hb]

end Comment

/-! ### Well-formed items -/

/-- A piece of a text, on one line. -/
structure IsPiece (p : List Char) : Prop where
  unbroken : Unbroken p
  trimmed : ∀ c ∈ p.getLast?, isBlank c = false

/-- A piece that no line but a plain one can give. -/
structure Continues (p : List Char) : Prop where
  nonempty : p ≠ []
  visible : ∀ c ∈ p.head?, isBlank c = false
  untagged : ∀ i, ¬ Line.Tagged p i

-- the characters are tested one after the other, not all characters for membership
instance (p : List Char) : Decidable (IsPiece p) :=
  decidable_of_iff (p.all (! isBreak ·) = true ∧ p.getLast?.all (! isBlank ·) = true)
    ⟨fun h => ⟨by simpa [Unbroken] using h.1, by simpa [Option.all_eq_true] using h.2⟩,
      fun h => ⟨by simpa [Unbroken] using h.1, by simpa [Option.all_eq_true] using h.2⟩⟩

instance (p : List Char) : Decidable (Continues p) :=
  decidable_of_iff
    (p ≠ [] ∧ p.head?.all (! isBlank ·) = true ∧ Line.tagged? p = none)
    ⟨fun h => ⟨h.1, by simpa [Option.all_eq_true] using h.2.1,
        Line.tagged?_eq_none_iff.mp h.2.2⟩,
      fun h => ⟨h.1, by simpa [Option.all_eq_true] using h.2,
        Line.tagged?_eq_none_iff.mpr h.3⟩⟩

namespace Item

/-- The text of an item, cut at its line feeds. -/
def pieces (i : Item) : List (List Char) := i.text.toList.splitOn '\n'

theorem pieces_ne_nil (i : Item) : i.pieces ≠ [] := List.splitOn_ne_nil _ _

/-- An item that a block comment can say. -/
structure WellFormed (i : Item) : Prop where
  not_plain : i.isPlain = false
  names : ∀ name ∈ i.names, ∃ c s, name.toList = c :: s ∧ Line.isIdentifierStart c = true ∧
    ∀ d ∈ s, Line.isIdentifierRest d = true
  unclosed : ¬ ['*', '/'] <:+: i.text.toList
  pieces : ∀ p ∈ i.pieces, IsPiece p
  continued : ∀ p ∈ i.pieces.tail, Continues p

instance : DecidablePred WellFormed := fun i =>
  decidable_of_iff
    (i.isPlain = false ∧ (∀ name ∈ i.names, Line.IsIdentifier name.toList) ∧
      ¬ ['*', '/'] <:+: i.text.toList ∧ (∀ p ∈ i.pieces, IsPiece p) ∧
      ∀ p ∈ i.pieces.tail, Continues p)
    ⟨fun h => ⟨h.1, fun name hm => Line.isIdentifier_iff.mp (h.2.1 name hm), h.2.2.1, h.2.2.2.1,
        h.2.2.2.2⟩,
      fun h => ⟨h.1, fun name hm => Line.isIdentifier_iff.mpr (h.2 name hm), h.3, h.4, h.5⟩⟩

/-! ### The canonical comment -/

/-- What a line says before the text. -/
def heading : Item → List Char
  | plain _ => []
  | simple tag _ => '@' :: tag.keyword.toList ++ [' ']
  | named tag name _ => '@' :: tag.keyword.toList ++ ' ' :: name.toList ++ [' ']
  | transition source target _ => '@' :: source.toList ++ '-' :: '>' :: target.toList ++ [' ']

/-- One line for each piece of the text; the heading leads in the first. -/
def canonicalLines (i : Item) : List (List Char) := i.pieces.modifyHead (i.heading ++ ·)

end Item

/-- A line of a block comment starts with an asterisk between two spaces. -/
def margined (l : List Char) : List Char := ' ' :: '*' :: ' ' :: l

/-- The lines of all items, each with its margin, below the line that opens the comment. -/
def Comment.canonical (items : List Item) : String :=
  block ('\n' :: (items.flatMap Item.canonicalLines).flatMap (margined · ++ ['\n']) ++ [' '])

example : Comment.canonical [.named .port "clk" "Clock.\nRising edge."] =
    "/**\n * @port clk Clock.\n * Rising edge.\n */" := by decide +kernel

/-! ### Reading a comment gives well-formed items -/

theorem IsPiece.trimEnd {s : List Char} (h : Unbroken s) : IsPiece (trimEnd s) :=
  ⟨h.of_infix (trimEnd_isPrefix s).isInfix, isBlank_getLast?_trimEnd s⟩

theorem Continues.trimEnd {s : List Char} (hs : s ≠ []) (hv : ∀ c ∈ s.head?, isBlank c = false)
    (ht : ∀ i, ¬ Line.Tagged (trimEnd s) i) : Continues (trimEnd s) := by
  obtain ⟨c, t, rfl⟩ := List.exists_cons_of_ne_nil hs
  rw [trimEnd_cons_of_not_blank (hv c rfl)] at ht ⊢
  exact ⟨by simp, by simpa using hv c rfl, ht⟩

theorem Item.names_withText (t : String) (i : Item) : (i.withText t).names = i.names := by
  cases i <;> rfl

theorem Item.isPlain_withText (t : String) (i : Item) : (i.withText t).isPlain = i.isPlain := by
  cases i <;> rfl

/-- A text of one piece. -/
theorem Item.WellFormed.of_isPiece {i : Item} (hi : i.isPlain = false)
    (hnames : ∀ name ∈ i.names, Line.IsIdentifier name.toList) (hp : IsPiece i.text.toList)
    (hu : Comment.Unclosed i.text.toList) : i.WellFormed := by
  have hpieces : i.pieces = [i.text.toList] :=
    List.splitOn_eq_singleton hp.unbroken.not_mem_newline
  refine ⟨hi, fun name hm => Line.isIdentifier_iff.mp (hnames name hm), hu, ?_, ?_⟩
  · rw [hpieces]
    simpa using hp
  · simp [hpieces]

/-- An item goes on on one more line. -/
theorem Item.WellFormed.append {i : Item} {p : List Char} (h : i.WellFormed) (hp : IsPiece p)
    (hc : Continues p) (hu : Comment.Unclosed p) :
    (i.append ("\n" ++ String.ofList p)).WellFormed := by
  have htext : (i.append ("\n" ++ String.ofList p)).text.toList = i.text.toList ++ '\n' :: p := by
    simp
  have hpieces : (i.append ("\n" ++ String.ofList p)).pieces = i.pieces ++ [p] := by
    rw [Item.pieces, htext, List.splitOn_append_cons_self,
      List.splitOn_eq_singleton hp.unbroken.not_mem_newline]
    rfl
  refine ⟨?_, ?_, ?_, ?_, ?_⟩
  · rw [Item.isPlain_append]
    exact h.not_plain
  · rw [Item.append, Item.names_withText]
    exact h.names
  · rw [htext]
    exact (Comment.unclosed_append_cons (by decide)).mpr ⟨h.unclosed, hu⟩
  · rw [hpieces]
    intro q hq
    rcases List.mem_append.mp hq with hq | hq
    · exact h.pieces q hq
    · exact List.mem_singleton.mp hq ▸ hp
  · rw [hpieces, List.tail_append_of_ne_nil i.pieces_ne_nil]
    intro q hq
    rcases List.mem_append.mp hq with hq | hq
    · exact h.continued q hq
    · exact List.mem_singleton.mp hq ▸ hc

/-- What one line gives: an item of its own, or a piece for the item before it. -/
inductive OfLine : Item → Prop
  | whole {i : Item} (h : i.WellFormed) : OfLine i
  | piece {p : List Char} (hp : IsPiece p) (hc : Continues p) (hu : Comment.Unclosed p) :
      OfLine (.plain (String.ofList p))

theorem ofLine_of_item? {l : List Char} {i : Item} (hl : Unbroken l) (hu : Comment.Unclosed l)
    (h : Line.item? l = some i) : OfLine i := by
  have hcontent : Line.content l <:+: l := (Line.content_suffix l).isInfix
  have hvisible := Line.isBlank_head?_content l
  unfold Line.item? at h
  generalize Line.content l = s at h hcontent hvisible
  split at h
  · cases h
  rename_i hs
  obtain rfl := Option.some.inj h
  cases ht : Line.tagged? s with
  | some i =>
    have hi := Line.tagged_of_tagged? ht
    obtain ⟨payload, hpayload, htext⟩ := hi.exists_payload
    have hpayload := hpayload.isInfix.trans hcontent
    have hp : IsPiece i.text.toList := htext ▸ .trimEnd (hl.of_infix hpayload)
    have hiu : Comment.Unclosed i.text.toList :=
      htext ▸ hu.of_infix ((trimEnd_isPrefix payload).isInfix.trans hpayload)
    exact .whole (.of_isPiece hi.isPlain hi.isIdentifier hp hiu)
  | none =>
    have htrim := (trimEnd_isPrefix s).isInfix.trans hcontent
    refine .piece (.trimEnd (hl.of_infix hcontent)) (.trimEnd hs hvisible fun i hi => ?_)
      (hu.of_infix htrim)
    obtain ⟨j, hj⟩ := hi.of_isPrefix (trimEnd_isPrefix s) (hl.of_infix hcontent)
    exact Line.tagged?_eq_none_iff.mp ht j hj

/-- One more line keeps all items well formed. -/
theorem wellFormed_of_mem_foldStep {done : List Item} {i : Item} (hdone : ∀ j ∈ done, j.WellFormed)
    (hi : OfLine i) : ∀ j ∈ foldStep done i, j.WellFormed := by
  cases hi with
  | whole h =>
    rw [foldStep_of_not_plain h.not_plain]
    exact List.forall_mem_cons.mpr ⟨h, hdone⟩
  | piece hp hc hu =>
    cases done with
    | nil =>
      have hsummary : (Item.summary (String.ofList _)).WellFormed :=
        .of_isPiece rfl (by simp [Item.names]) (by simpa [Item.text] using hp)
          (by simpa [Item.text] using hu)
      simpa [foldStep] using hsummary
    | cons last rest =>
      obtain ⟨hlast, hrest⟩ := List.forall_mem_cons.mp hdone
      exact List.forall_mem_cons.mpr ⟨hlast.append hp hc hu, hrest⟩

theorem wellFormed_of_mem_foldl {items done : List Item} (hdone : ∀ j ∈ done, j.WellFormed)
    (hitems : ∀ i ∈ items, OfLine i) : ∀ j ∈ items.foldl foldStep done, j.WellFormed := by
  induction items generalizing done with
  | nil => exact hdone
  | cons i items ih =>
    obtain ⟨hi, hitems⟩ := List.forall_mem_cons.mp hitems
    exact ih (wellFormed_of_mem_foldStep hdone hi) hitems

theorem wellFormed_of_mem_parseBody {b : List Char} (hb : Comment.Unclosed b) :
    ∀ i ∈ parseBody b, i.WellFormed := by
  have hlines : ∀ i ∈ parseLines b, OfLine i := by
    intro i hi
    obtain ⟨l, hl, hli⟩ := List.mem_filterMap.mp hi
    obtain ⟨hbreak, hinfix⟩ := unbroken_and_infix_of_mem_lines hl
    exact ofLine_of_item? hbreak (hb.of_infix hinfix) hli
  intro i hi
  exact wellFormed_of_mem_foldl (by simp) hlines i (List.mem_reverse.mp hi)

/-! ### Reading the canonical comment -/

theorem content_margined (l : List Char) : Line.content (margined l) = trimStart l := by
  have hmargin : trimStart (margined l) = '*' :: ' ' :: l :=
    (trimStart_cons_of_blank (by decide) _).trans (trimStart_cons_of_not_blank (by decide) _)
  rw [Line.content, hmargin]
  exact trimStart_cons_of_blank (by decide) l

theorem item?_margined {l : List Char} (hne : l ≠ []) (hv : ∀ c ∈ l.head?, isBlank c = false) :
    Line.item? (margined l) =
      some ((Line.tagged? l).getD (.plain (String.ofList (trimEnd l)))) := by
  rw [Line.item?, content_margined, trimStart_eq_self hv]
  split
  · exact absurd rfl hne
  · rfl

theorem IsPiece.ending {p : List Char} (h : IsPiece p) :
    Line.Ending (' ' :: p) (String.ofList p) := by
  have hp : '\n' ∉ p.dropLast := fun hm => h.unbroken.not_mem_newline (List.dropLast_subset p hm)
  simpa [trimEnd_eq_self h.trimmed] using Line.Ending.intro (.inl rfl) hp

/-- The first line of an item. -/
theorem tagged?_heading {i : Item} (h : i.WellFormed) {p : List Char} (hp : IsPiece p) :
    Line.tagged? (i.heading ++ p) = some (i.withText (String.ofList p)) := by
  have hnames : ∀ name ∈ i.names, Line.IsIdentifier name.toList := fun name hm =>
    Line.isIdentifier_iff.mpr (h.names name hm)
  cases i with
  | plain text => cases h.not_plain
  | simple tag text =>
    have hline := Line.SimpleLine.intro tag hp.ending
    simpa [Item.heading, Item.withText] using hline.tagged?
  | named tag name text =>
    have hline := Line.NamedLine.intro tag (hnames name (by simp [Item.names])) hp.ending
    simpa [Item.heading, Item.withText] using hline.tagged?
  | transition source target text =>
    have hsource := hnames source (by simp [Item.names])
    have htarget := hnames target (by simp [Item.names])
    have hline : Line.TransitionLine
        ('@' :: (source.toList ++ ([] ++ '-' :: '>' :: ([] ++ (target.toList ++ ' ' :: p))))) _ :=
      .intro hsource (by simp) (by simp) htarget hp.ending
    have htagged := (Line.tagged?_arrow hsource _).trans (Line.transition?_eq_some_iff.mpr hline)
    simpa [Item.heading, Item.withText] using htagged

theorem intercalate_newline (p : List Char) (ps : List (List Char)) :
    ['\n'].intercalate (p :: ps) = p ++ ps.flatMap ('\n' :: ·) := by
  induction ps generalizing p with
  | nil => simp
  | cons q ps ih => simp [List.intercalate_cons_cons, ih]

theorem Item.text_eq_of_pieces {i : Item} {p : List Char} {ps : List (List Char)}
    (h : i.pieces = p :: ps) : i.text.toList = p ++ ps.flatMap ('\n' :: ·) := by
  rw [← intercalate_newline, ← h]
  exact (List.intercalate_splitOn '\n').symm

/-- Plain lines go to the item before them. -/
theorem foldl_plain (ps : List (List Char)) (last : Item) (done : List Item) :
    (ps.map fun p => Item.plain (String.ofList p)).foldl foldStep (last :: done) =
      last.append (String.ofList (ps.flatMap ('\n' :: ·))) :: done := by
  induction ps generalizing last with
  | nil => cases last <;> simp [Item.append, Item.withText, Item.text]
  | cons p ps ih =>
    rw [List.map_cons, List.foldl_cons, foldStep, ih, Item.append_append]
    simp [String.append_assoc]

theorem item?_continues {p : List Char} (hp : IsPiece p) (hc : Continues p) :
    Line.item? (margined p) = some (.plain (String.ofList p)) := by
  rw [item?_margined hc.nonempty hc.visible, Line.tagged?_eq_none_iff.mpr hc.untagged,
    trimEnd_eq_self hp.trimmed]
  rfl

theorem item?_heading {i : Item} (h : i.WellFormed) {p : List Char} (hp : IsPiece p) :
    Line.item? (margined (i.heading ++ p)) = some (i.withText (String.ofList p)) := by
  obtain ⟨s, hs⟩ : ∃ s, i.heading = '@' :: s := by
    cases i with
    | plain text => cases h.not_plain
    | _ => exact ⟨_, rfl⟩
  have hv : ∀ c ∈ (i.heading ++ p).head?, isBlank c = false := by
    simp [hs, isBlank]
  rw [item?_margined (by simp [hs]) hv, tagged?_heading h hp]
  rfl

/-- The lines of an item, read one after the other, add it to the items before. -/
theorem foldl_canonicalLines {i : Item} (h : i.WellFormed) (done : List Item) :
    ((i.canonicalLines.map margined).filterMap Line.item?).foldl foldStep done = i :: done := by
  obtain ⟨p, ps, hi⟩ := List.exists_cons_of_ne_nil i.pieces_ne_nil
  have hpieces := h.pieces
  have hcontinued := h.continued
  rw [hi] at hpieces hcontinued
  obtain ⟨hp, hps⟩ := List.forall_mem_cons.mp hpieces
  have hplain : (ps.map margined).filterMap Line.item? =
      ps.map fun p => Item.plain (String.ofList p) := by
    rw [List.filterMap_map, ← List.filterMap_eq_map]
    exact List.filterMap_congr fun q hq => item?_continues (hps q hq) (hcontinued q hq)
  have htext : i.text = String.ofList p ++ String.ofList (ps.flatMap ('\n' :: ·)) := by
    rw [← String.ofList_append, ← Item.text_eq_of_pieces hi, String.ofList_toList]
  -- the first line opens the item with its first piece, the plain ones give the rest of its text
  have hwhole : (i.withText (String.ofList p)).append (String.ofList (ps.flatMap ('\n' :: ·))) =
      i := by
    cases i <;> simp_all [Item.append, Item.withText, Item.text]
  rw [Item.canonicalLines, hi, List.modifyHead_cons, List.map_cons,
    List.filterMap_cons_some (item?_heading h hp), hplain, List.foldl_cons,
    foldStep_of_not_plain (by rw [Item.isPlain_withText, h.not_plain]), foldl_plain, hwhole]

theorem foldl_flatMap_canonicalLines {items : List Item} (h : ∀ i ∈ items, i.WellFormed)
    (done : List Item) :
    (((items.flatMap Item.canonicalLines).map margined).filterMap Line.item?).foldl foldStep done =
      items.reverse ++ done := by
  induction items generalizing done with
  | nil => rfl
  | cons i items ih =>
    obtain ⟨hi, hitems⟩ := List.forall_mem_cons.mp h
    rw [List.flatMap_cons, List.map_append, List.filterMap_append, List.foldl_append,
      foldl_canonicalLines hi, ih hitems]
    simp

/-! ### The lines of the canonical comment -/

theorem unbroken_margined {l : List Char} (h : Unbroken l) : Unbroken (margined l) := by
  simpa [margined, Unbroken, isBreak] using h

theorem lines_flatMap_margined {ls : List (List Char)} (h : ∀ l ∈ ls, Unbroken l) (s : List Char) :
    lines (ls.flatMap (margined · ++ ['\n']) ++ s) = ls.map margined ++ lines s := by
  induction ls with
  | nil => rfl
  | cons l ls ih =>
    obtain ⟨hl, hls⟩ := List.forall_mem_cons.mp h
    have hlines := lines_append_newline (unbroken_margined hl)
      (ls.flatMap (margined · ++ ['\n']) ++ s)
    simpa [ih hls] using hlines

theorem unclosed_flatMap_margined {ls : List (List Char)} (h : ∀ l ∈ ls, Comment.Unclosed l) :
    Comment.Unclosed (ls.flatMap (margined · ++ ['\n']) ++ [' ']) := by
  induction ls with
  | nil => simp [Comment.Unclosed, List.infix_cons_iff]
  | cons l ls ih =>
    obtain ⟨hl, hls⟩ := List.forall_mem_cons.mp h
    have hline := (Comment.unclosed_append_cons (c := '\n') (by decide)).mpr ⟨hl, ih hls⟩
    have hmargin : Comment.Unclosed [' ', '*'] := by
      simp [Comment.Unclosed, List.infix_cons_iff]
    simpa [margined] using
      (Comment.unclosed_append_cons (c := ' ') (by decide)).mpr ⟨hmargin, hline⟩

/-- A heading is made of names and of four other characters. -/
theorem mem_heading {i : Item} (h : i.WellFormed) {c : Char} (hc : c ∈ i.heading) :
    Line.isIdentifierRest c = true ∨ c ∈ ['@', ' ', '-', '>'] := by
  have hnames : ∀ name ∈ i.names, ∀ d ∈ name.toList, Line.isIdentifierRest d = true :=
    fun name hm d hd => (Line.isIdentifier_iff.mpr (h.names name hm)).isIdentifierRest hd
  cases i with
  | plain text => cases h.not_plain
  | simple tag text =>
    have hkeyword : ∀ d ∈ tag.keyword.toList, Line.isIdentifierRest d = true :=
      fun d => tag.isIdentifier_keyword.isIdentifierRest
    simp only [Item.heading, List.mem_append, List.mem_cons] at hc ⊢
    grind
  | named tag name text =>
    have hkeyword : ∀ d ∈ tag.keyword.toList, Line.isIdentifierRest d = true :=
      fun d => tag.isIdentifier_keyword.isIdentifierRest
    simp only [Item.heading, Item.names, List.mem_append, List.mem_cons] at hc hnames ⊢
    grind
  | transition source target text =>
    simp only [Item.heading, Item.names, List.mem_append, List.mem_cons] at hc hnames ⊢
    grind

/-- No heading breaks its line or closes the comment. -/
theorem harmless_of_mem_heading {i : Item} (h : i.WellFormed) :
    ∀ c ∈ i.heading, isBreak c = false ∧ c ∉ ['*', '/'] := by
  intro c hc
  rcases mem_heading h hc with hrest | hmem
  · constructor
    · by_contra hb
      rw [Bool.not_eq_false] at hb
      simp [Line.isIdentifierRest_of_isBlank (isBlank_of_isBreak hb)] at hrest
    · intro hmark
      rcases List.mem_pair.mp hmark with rfl | rfl <;> simp [Line.isIdentifierRest] at hrest
  · have hsafe : ['@', ' ', '-', '>'].all (fun d => ! isBreak d && ! ['*', '/'].contains d) = true :=
      by decide
    simpa using List.all_eq_true.mp hsafe c hmem

theorem unbroken_and_unclosed_of_mem_canonicalLines {i : Item} (h : i.WellFormed) :
    ∀ l ∈ i.canonicalLines, Unbroken l ∧ Comment.Unclosed l := by
  obtain ⟨p, ps, hi⟩ := List.exists_cons_of_ne_nil i.pieces_ne_nil
  have hunclosed : ∀ q ∈ p :: ps, Comment.Unclosed q :=
    Comment.unclosed_of_mem_pieces (Item.text_eq_of_pieces hi ▸ h.unclosed)
  have hunbroken : ∀ q ∈ p :: ps, Unbroken q := fun q hq => (h.pieces q (hi ▸ hq)).unbroken
  rw [List.forall_mem_cons] at hunclosed hunbroken
  have hheading := harmless_of_mem_heading h
  rw [Item.canonicalLines, hi, List.modifyHead_cons, List.forall_mem_cons]
  refine ⟨⟨?_, ?_⟩, fun q hq => ⟨hunbroken.2 q hq, hunclosed.2 q hq⟩⟩
  · intro c hc
    rcases List.mem_append.mp hc with hc | hc
    · exact (hheading c hc).1
    · exact hunbroken.1 c hc
  · exact Comment.unclosed_append_of_not_mem (fun c hc => (hheading c hc).2) hunclosed.1

theorem items_canonical {items : List Item} (h : ∀ i ∈ items, i.WellFormed) :
    Comment.items (Comment.canonical items) = items := by
  have hlines : ∀ l ∈ items.flatMap Item.canonicalLines, Unbroken l ∧ Comment.Unclosed l := by
    intro l hl
    obtain ⟨i, hi, hli⟩ := List.mem_flatMap.mp hl
    exact unbroken_and_unclosed_of_mem_canonicalLines (h i hi) l hli
  have hbody : Comment.Unclosed
      ('\n' :: (items.flatMap Item.canonicalLines).flatMap (margined · ++ ['\n']) ++ [' ']) :=
    Comment.unclosed_append_of_not_mem (s := ['\n']) (by simp)
      (unclosed_flatMap_margined fun l hl => (hlines l hl).2)
  have hlast : (lines [' ']).filterMap Line.item? = [] := by decide
  have hfirst : Line.item? [] = none := by decide
  rw [Comment.canonical, Comment.items_block hbody, parseBody, fold, parseLines, List.cons_append,
    lines_newline, lines_flatMap_margined fun l hl => (hlines l hl).1,
    List.filterMap_cons_none hfirst, List.filterMap_append, hlast, List.append_nil,
    foldl_flatMap_canonicalLines h]
  simp

/-- The items that block comments say are the well-formed ones, and their canonical comment says
them. -/
theorem block_items_exact (items : List Item) :
    ((∃ b, Comment.items (Comment.block b) = items) ↔ ∀ i ∈ items, i.WellFormed) ∧
      ((∀ i ∈ items, i.WellFormed) → Comment.items (Comment.canonical items) = items) := by
  refine ⟨⟨?_, fun h => ⟨_, items_canonical h⟩⟩, items_canonical⟩
  rintro ⟨b, rfl⟩
  obtain ⟨b', hb', hitems⟩ := Comment.exists_items_block b
  rw [hitems]
  exact wellFormed_of_mem_parseBody hb'

/-- Items whose texts and names look like other forms. -/
def oddSample : List Item :=
  [.simple .note "-> x y", .named .port "state" "", .transition "note" "port$" " go\n* on\n@port"]

theorem block_items_exact_oddSample :
    ((∀ i ∈ oddSample, i.WellFormed) ∧ Comment.items (Comment.canonical oddSample) = oddSample) ∧
      ¬ ∃ b, Comment.items (Comment.block b) = [.simple .note "go\n@port clk on"] := by
  have h : ∀ i ∈ oddSample, i.WellFormed := by decide +kernel
  refine ⟨⟨h, (block_items_exact oddSample).2 h⟩, ?_⟩
  rw [(block_items_exact _).1]
  decide +kernel

end DesignDoc.Annotation
