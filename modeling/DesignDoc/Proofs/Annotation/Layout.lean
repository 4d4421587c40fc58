import DesignDoc.Proofs.Annotation.Delimiters

/-! The layout of a comment does not matter. A line says the same whatever ends it, however far it is
indented and whether or not an asterisk leads it in, and lines that say nothing can be put in
anywhere. So a body can be cut at any line feed, and a comment says the same with line feeds of either
kind. -/

namespace DesignDoc.Annotation

open DesignDoc.Text

/-! ### Blanks and breaks -/

theorem Line.item?_nil : item? [] = none := rfl

theorem Line.filterMap_cons_item? (l : List Char) (ls : List (List Char)) :
    (l :: ls).filterMap item? = (item? l).toList ++ ls.filterMap item? := by
  cases h : item? l <;> simp [h]

theorem Line.content_cons_blank {c : Char} (hc : isBlank c = true) (l : List Char) :
    content (c :: l) = content l := by
  rw [content, content, trimStart_cons_of_blank hc]

/-- A line is read by what it says alone. -/
theorem Line.item?_congr {l m : List Char} (h : content l = content m) : item? l = item? m := by
  rw [item?, item?, h]

@[simp] theorem parseLines_nil : parseLines [] = [] := by simp [parseLines]

/-- A break at the start of a body ends a line that says nothing. -/
theorem parseLines_break {c : Char} (hc : isBreak c = true) (s : List Char) :
    parseLines (c :: s) = parseLines s := by
  by_cases h : c = '\r' ∧ s.head? = some '\n'
  · obtain ⟨rfl, hs⟩ := h
    obtain ⟨t, rfl⟩ := List.head?_eq_some_iff.mp hs
    rw [parseLines, parseLines, lines_crlf, lines_newline]
  · rw [parseLines, parseLines, lines_break hc fun hr hn => h ⟨hr, hn⟩,
      List.filterMap_cons_none Line.item?_nil]

/-- What the first line of a body says comes first. -/
theorem parseLines_append {l s : List Char} (hl : Unbroken l) (hs : AtLineEnd s) :
    parseLines (l ++ s) = (Line.item? l).toList ++ parseLines s := by
  cases s with
  | nil =>
    by_cases hne : l = []
    · simp [hne, Line.item?_nil]
    · rw [List.append_nil, parseLines, lines_of_unbroken hl hne, Line.filterMap_cons_item?,
        List.filterMap_nil, parseLines_nil]
  | cons c s =>
    obtain ⟨ls, hls⟩ := exists_lines_of_break (atLineEnd_cons.mp hs) s
    rw [parseLines, parseLines, lines_append_of_lines hl hls, hls, Line.filterMap_cons_item?,
      List.filterMap_cons_none Line.item?_nil]

theorem parseLines_unbroken {l : List Char} (hl : Unbroken l) :
    parseLines l = (Line.item? l).toList := by
  simpa using parseLines_append hl atLineEnd_nil

/-- A body can be cut at any line feed. -/
theorem parseLines_append_newline (a b : List Char) :
    parseLines (a ++ '\n' :: b) = parseLines a ++ parseLines b := by
  induction a using lineInduction with
  | last l hl =>
    have hbreak : isBreak '\n' = true := by decide
    rw [parseLines_append hl (atLineEnd_cons.mpr hbreak), parseLines_break hbreak,
      parseLines_unbroken hl]
  | line l c s hl hc ih =>
    have hs (t : List Char) : AtLineEnd (c :: t) := atLineEnd_cons.mpr hc
    rw [List.append_assoc, List.cons_append, parseLines_append hl (hs _),
      parseLines_append hl (hs _), parseLines_break hc, parseLines_break hc, ih, List.append_assoc]

/-- A blank at the start of a body says nothing. -/
theorem parseLines_blank {c : Char} (hc : isBlank c = true) (s : List Char) :
    parseLines (c :: s) = parseLines s := by
  by_cases hbreak : isBreak c = true
  · exact parseLines_break hbreak s
  · obtain ⟨l, t, rfl, hl, ht⟩ := exists_first_line s
    have hcl : Unbroken (c :: l) := List.forall_mem_cons.mpr ⟨by simpa using hbreak, hl⟩
    rw [← List.cons_append, parseLines_append hcl ht, parseLines_append hl ht,
      Line.item?_congr (Line.content_cons_blank hc l)]

theorem parseLines_blanks_append {ws : List Char} (h : ∀ c ∈ ws, isBlank c = true)
    (s : List Char) : parseLines (ws ++ s) = parseLines s := by
  induction ws with
  | nil => rfl
  | cons c ws ih =>
    obtain ⟨hc, hws⟩ := List.forall_mem_cons.mp h
    rw [List.cons_append, parseLines_blank hc, ih hws]

/-! ### What leads a line in -/

/-- What can be put before a line: blanks, and an asterisk between blanks if the line does not begin
with one after its own blanks. -/
inductive LeadIn (l : List Char) : List Char → Prop
  | blanks {ws : List Char} (hws : ∀ c ∈ ws, isBlank c = true) : LeadIn l ws
  | mark {ws gap : List Char} (hws : ∀ c ∈ ws, isBlank c = true)
      (hgap : ∀ c ∈ gap, isBlank c = true) (hl : l.find? (! isBlank ·) ≠ some '*') :
      LeadIn l (ws ++ '*' :: gap)

theorem Line.content_star (l : List Char) : content ('*' :: l) = trimStart l := by
  rw [content, trimStart_cons_of_not_blank (by decide)]
  rfl

theorem Line.content_of_unmarked {l : List Char} (h : l.find? (! isBlank ·) ≠ some '*') :
    content l = trimStart l := by
  have hhead : l.find? (! isBlank ·) = (trimStart l).head? := by
    rw [List.find?_eq_head?_dropWhile_not, trimStart]
    simp
  unfold content
  split
  · next t ht =>
    rw [hhead, ht] at h
    exact absurd rfl h
  · rfl

/-- A line that begins with no asterisk says the same after one. -/
theorem Line.item?_mark {gap l : List Char} (hgap : ∀ c ∈ gap, isBlank c = true)
    (hl : l.find? (! isBlank ·) ≠ some '*') : item? ('*' :: (gap ++ l)) = item? l := by
  apply item?_congr
  rw [content_star, trimStart_blanks_append hgap, content_of_unmarked hl]

/-- The asterisk before such a line is not read, even if it ends up on a line of its own. -/
theorem parseLines_mark {gap l s : List Char} (hgap : ∀ c ∈ gap, isBlank c = true)
    (hfirst : l.find? (! isBlank ·) ≠ some '*') (hl : Unbroken l) (hs : AtLineEnd s) :
    parseLines ('*' :: (gap ++ (l ++ s))) = parseLines (l ++ s) := by
  obtain ⟨g, t, rfl, hg, ht⟩ := exists_first_line gap
  obtain ⟨hblank, hrest⟩ := List.forall_mem_append.mp hgap
  have hstar : isBreak '*' = false := by decide
  cases t with
  | nil =>
    have hline : Unbroken ('*' :: (g ++ l)) :=
      List.forall_mem_cons.mpr ⟨hstar, List.forall_mem_append.mpr ⟨hg, hl⟩⟩
    have h := parseLines_append hline hs
    rw [Line.item?_mark hblank hfirst, ← parseLines_append hl hs] at h
    simpa using h
  | cons c t =>
    -- the asterisk stands on an earlier line, which says nothing
    have hline : Unbroken ('*' :: g) := List.forall_mem_cons.mpr ⟨hstar, hg⟩
    have hsilent : Line.item? ('*' :: g) = none := by
      rw [← List.append_nil g]
      exact Line.item?_mark hblank (by simp)
    have h := parseLines_append hline (s := (c :: t) ++ (l ++ s)) ht
    rw [hsilent, parseLines_blanks_append hrest] at h
    simpa using h

theorem parseLines_leadIn {l lead s : List Char} (hlead : LeadIn l lead) (hl : Unbroken l)
    (hs : AtLineEnd s) : parseLines (lead ++ (l ++ s)) = parseLines (l ++ s) := by
  cases hlead with
  | blanks hws => exact parseLines_blanks_append hws _
  | mark hws hgap hfirst =>
    rw [List.append_assoc, parseLines_blanks_append hws]
    exact parseLines_mark hgap hfirst hl hs

/-! ### Layouts -/

/-- All that can end a line. -/
def terminators : List (List Char) :=
  [['\n'], ['\r'], ['\r', '\n'], ['\x0b'], ['\x0c'], ['\x1c'], ['\x1d'], ['\x1e'], ['\u0085'],
   ['\u2028'], ['\u2029']]

/-- A line of blanks and at most one asterisk. -/
def IsFiller (m : List Char) : Prop :=
  (∀ c ∈ m, isBlank c = true ∨ c = '*') ∧ m.count '*' ≤ 1

instance (m : List Char) : Decidable (IsFiller m) :=
  decidable_of_iff ((m.all fun c => isBlank c || c == '*') = true ∧ m.count '*' ≤ 1)
    (by simp [IsFiller])

/-- The text lays out the lines: each is led in and ended in some way, and fillers can stand before,
between and after them. The last line may be left without an end. -/
inductive LaidOut : List (List Char) → List Char → Prop
  | nil : LaidOut [] []
  | last {l lead : List Char} (hl : Unbroken l) (hlead : LeadIn l lead) : LaidOut [l] (lead ++ l)
  | line {l lead ending text : List Char} {ls : List (List Char)} (hl : Unbroken l)
      (hlead : LeadIn l lead) (hend : ending ∈ terminators) (h : LaidOut ls text) :
      LaidOut (l :: ls) (lead ++ l ++ ending ++ text)
  | filler {m ending text : List Char} {ls : List (List Char)} (hm : IsFiller m)
      (hend : ending ∈ terminators) (h : LaidOut ls text) : LaidOut ls (m ++ ending ++ text)

theorem parseLines_terminator {ending : List Char} (h : ending ∈ terminators) (s : List Char) :
    AtLineEnd (ending ++ s) ∧ parseLines (ending ++ s) = parseLines s := by
  have hbreaks : ∀ t ∈ terminators, t ≠ [] ∧ ∀ c ∈ t, isBreak c = true := by
    simp [terminators, isBreak]
  obtain ⟨hne, hending⟩ := hbreaks ending h
  refine ⟨?_, parseLines_blanks_append (fun c hc => isBlank_of_isBreak (hending c hc)) s⟩
  obtain ⟨c, t, rfl⟩ := List.exists_cons_of_ne_nil hne
  exact atLineEnd_cons.mpr (hending c List.mem_cons_self)

/-- A filler leads in the empty line. -/
theorem IsFiller.leadIn {m : List Char} (h : IsFiller m) : LeadIn [] m := by
  obtain ⟨hchars, hcount⟩ := h
  by_cases hm : '*' ∈ m
  · obtain ⟨ws, gap, rfl⟩ := List.append_of_mem hm
    have hfree : '*' ∉ ws ∧ '*' ∉ gap := by
      rw [List.count_append, List.count_cons_self] at hcount
      constructor <;> rw [← List.count_eq_zero] <;> omega
    obtain ⟨hws, hgap⟩ := List.forall_mem_append.mp hchars
    refine .mark (fun c hc => ?_) (fun c hc => ?_) (by simp)
    · exact (hws c hc).resolve_right fun hstar => hfree.1 (hstar ▸ hc)
    · exact (hgap c (List.mem_cons_of_mem _ hc)).resolve_right fun hstar => hfree.2 (hstar ▸ hc)
  · exact .blanks fun c hc => (hchars c hc).resolve_right fun hstar => hm (hstar ▸ hc)

/-- A line that is laid out says what it says by itself. -/
theorem parseLines_line {l lead ending : List Char} (hl : Unbroken l) (hlead : LeadIn l lead)
    (hend : ending ∈ terminators) (text : List Char) :
    parseLines (lead ++ l ++ ending ++ text) = (Line.item? l).toList ++ parseLines text := by
  obtain ⟨hat, hparse⟩ := parseLines_terminator hend text
  rw [List.append_assoc, List.append_assoc, parseLines_leadIn hlead hl hat,
    parseLines_append hl hat, hparse]

theorem LaidOut.parseLines_eq {ls : List (List Char)} {text : List Char} (h : LaidOut ls text) :
    parseLines text = ls.filterMap Line.item? := by
  induction h with
  | nil => rfl
  | @last l lead hl hlead =>
    have h := parseLines_leadIn hlead hl atLineEnd_nil
    rw [List.append_nil] at h
    rw [h, parseLines_unbroken hl, Line.filterMap_cons_item?, List.filterMap_nil, List.append_nil]
  | @line l lead ending text ls hl hlead hend _ ih =>
    rw [parseLines_line hl hlead hend, ih, Line.filterMap_cons_item?]
  | @filler m ending text ls hm hend _ ih =>
    have h := parseLines_line (l := []) (by simp [Unbroken]) hm.leadIn hend text
    rw [List.append_nil] at h
    rw [h, ih]
    rfl

/-! ### Line feeds of either kind -/

theorem parseLines_crlf (s : List Char) : parseLines (crlf s) = parseLines s := by
  induction s using lineInduction with
  | last l hl => rw [crlf_of_unbroken hl]
  | line l c s hl hc ih =>
    have hs : AtLineEnd (c :: s) := atLineEnd_cons.mpr hc
    have hbreak : parseLines (crlf (c :: s)) = parseLines (crlf s) := by
      by_cases hn : c = '\n'
      · rw [hn, crlf_newline, parseLines_break (by decide), parseLines_break (by decide)]
      · rw [crlf_cons hn, parseLines_break hc]
    rw [crlf_append, crlf_of_unbroken hl, parseLines_append hl hs.crlf, parseLines_append hl hs,
      hbreak, parseLines_break hc, ih]

namespace Comment

theorem isPrefix_of_isPrefix_crlf {p s : List Char} (hp : Unbroken p) (h : p <+: crlf s) :
    p <+: s := by
  induction p generalizing s with
  | nil => exact List.nil_prefix
  | cons a p ih =>
    obtain ⟨ha, hp⟩ := List.forall_mem_cons.mp hp
    cases s with
    | nil => simp at h
    | cons c s =>
      by_cases hc : c = '\n'
      · rw [hc, crlf_newline] at h
        obtain ⟨rfl, -⟩ := List.cons_prefix_cons.mp h
        exact absurd ha (by decide)
      · rw [crlf_cons hc] at h
        obtain ⟨rfl, hrest⟩ := List.cons_prefix_cons.mp h
        exact List.cons_prefix_cons.mpr ⟨rfl, ih hp hrest⟩

theorem untilClose?_crlf (s : List Char) : untilClose? (crlf s) = (untilClose? s).map crlf := by
  fun_induction untilClose? s with
  | case1 => rfl
  | case2 s =>
    rw [crlf_cons (by decide), crlf_cons (by decide), untilClose?]
    rfl
  | case3 c s hmark ih =>
    by_cases hc : c = '\n'
    · rw [hc, crlf_newline]
      cases h : untilClose? s <;> simp [untilClose?, ih, h]
    · rw [crlf_cons hc, untilClose?]
      · cases h : untilClose? s <;> simp [ih, h, crlf_cons hc]
      · -- a slash that follows `c` in the new text follows it in the old one
        rintro t rfl ht
        have hslash : ['/'] <+: s := isPrefix_of_isPrefix_crlf (by decide) ⟨t, ht.symm⟩
        obtain ⟨u, rfl⟩ := hslash
        exact hmark u rfl rfl

theorem body_of_unmarked {s : List Char} (hline : ¬ ['/', '/', '*'] <+: s)
    (hblock : ¬ ['/', '*', '*'] <+: s) : body s = .error .unmarked := by
  unfold body
  split
  · exact absurd ⟨_, rfl⟩ hline
  · exact absurd ⟨_, rfl⟩ hblock
  · rfl

/-- The delimiters are found in the same places. -/
theorem body_crlf (s : List Char) : body (crlf s) = (body s).map crlf := by
  by_cases hline : ['/', '/', '*'] <+: s
  · obtain ⟨t, rfl⟩ := hline
    obtain ⟨l, u, rfl, hl, hu⟩ := exists_first_line t
    have hcrlf : crlf (['/', '/', '*'] ++ (l ++ u)) = '/' :: '/' :: '*' :: (l ++ crlf u) := by
      rw [crlf_append, crlf_append, crlf_of_unbroken hl]
      rfl
    have hbody : body (['/', '/', '*'] ++ (l ++ u)) = .ok ((lines (l ++ u)).headD []) := rfl
    rw [hcrlf, body, hbody, headD_lines_append hl hu, headD_lines_append hl hu.crlf]
    exact congrArg Except.ok (crlf_of_unbroken hl).symm
  · by_cases hblock : ['/', '*', '*'] <+: s
    · obtain ⟨t, rfl⟩ := hblock
      have hcrlf : crlf (['/', '*', '*'] ++ t) = '/' :: '*' :: '*' :: crlf t := by
        rw [crlf_append]
        rfl
      rw [hcrlf, List.cons_append, List.cons_append, List.cons_append, List.nil_append, body, body,
        untilClose?_crlf]
      cases untilClose? t <;> rfl
    · rw [body_of_unmarked hline hblock,
        body_of_unmarked (fun h => hline (isPrefix_of_isPrefix_crlf (by decide) h))
          fun h => hblock (isPrefix_of_isPrefix_crlf (by decide) h)]
      rfl

theorem items_crlf (text : String) : items (String.ofList (crlf text.toList)) = items text := by
  rw [items, items, String.toList_ofList, body_crlf]
  cases body text.toList with
  | error r => rfl
  | ok b => simp [Except.map, parseBody, parseLines_crlf]

end Comment

/-! ### Layout does not matter -/

/-- A body can be cut at any line feed. However lines are laid out, they say what each of them says by
itself. A comment says the same with a carriage return before every line feed. -/
theorem layout_irrelevant :
    (∀ a b, parseLines (a ++ '\n' :: b) = parseLines a ++ parseLines b) ∧
    (∀ ls text, LaidOut ls text → parseLines text = ls.filterMap Line.item?) ∧
    ∀ text : String, Comment.items (String.ofList (crlf text.toList)) = Comment.items text :=
  ⟨parseLines_append_newline, fun _ _ h => h.parseLines_eq, Comment.items_crlf⟩

/-- A port with a list below it. -/
def portLines : List (List Char) := ["@port clk Clock".toList, "* edge".toList, "up".toList]

/-- The lines as they are. -/
def tightSample : List Char := "@port clk Clock\n* edge\nup".toList

/-- The lines with margins, fillers and different ends. -/
def spreadSample : List Char :=
  " * \u2028\t* @port clk Clock\r\n\x1f* edge\r*\n * up".toList

theorem laidOut_tightSample : LaidOut portLines tightSample := by
  have htext : tightSample = [] ++ "@port clk Clock".toList ++ ['\n'] ++
      ([] ++ "* edge".toList ++ ['\n'] ++ ([] ++ "up".toList)) := by decide
  have hnone {l : List Char} : LeadIn l [] := .blanks (by simp)
  rw [htext]
  exact .line (by decide) hnone (by decide)
    (.line (by decide) hnone (by decide) (.last (by decide) hnone))

theorem laidOut_spreadSample : LaidOut portLines spreadSample := by
  have hblank {ws : List Char} (h : ws.all isBlank = true) : ∀ c ∈ ws, isBlank c = true :=
    List.all_eq_true.mp h
  have htext : spreadSample = [' ', '*', ' '] ++ ['\u2028'] ++
      (['\t'] ++ '*' :: [' '] ++ "@port clk Clock".toList ++ ['\r', '\n'] ++
        (['\x1f'] ++ "* edge".toList ++ ['\r'] ++
          (['*'] ++ ['\n'] ++ ([' '] ++ '*' :: [' '] ++ "up".toList)))) := by decide
  rw [htext]
  exact .filler (by decide) (by decide)
    (.line (by decide) (.mark (hblank (by decide)) (hblank (by decide)) (by decide)) (by decide)
      (.line (by decide) (.blanks (hblank (by decide))) (by decide)
        (.filler (by decide) (by decide)
          (.last (by decide) (.mark (hblank (by decide)) (hblank (by decide)) (by decide))))))

theorem layout_irrelevant_portLines :
    LaidOut portLines tightSample ∧ LaidOut portLines spreadSample ∧
      parseLines spreadSample = parseLines tightSample ∧
      parseLines tightSample = [.named .port "clk" "Clock", .plain "edge", .plain "up"] ∧
      Comment.items "/** @note a\r\n * b */" = Comment.items "/** @note a\n * b */" := by
  have htight := layout_irrelevant.2.1 _ _ laidOut_tightSample
  have hspread := layout_irrelevant.2.1 _ _ laidOut_spreadSample
  refine ⟨laidOut_tightSample, laidOut_spreadSample, hspread.trans htight.symm, ?_, ?_⟩
  · rw [htight]
    decide
  · exact layout_irrelevant.2.2 "/** @note a\n * b */"

end DesignDoc.Annotation
