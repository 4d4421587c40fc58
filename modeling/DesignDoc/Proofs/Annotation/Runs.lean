import DesignDoc.Proofs.Annotation.Canonical
import DesignDoc.Proofs.Annotation.Forms

/-! How the body of a comment is cut into items. Lines that say nothing are passed over, every tagged
line begins a run, and lines without a tag go on with the run before them; those at the start are a
run of their own. Each run is one item, with the texts of its lines one below the other. -/

namespace DesignDoc.Annotation

open DesignDoc.Text

/-! ### Runs -/

namespace Line

/-- Whether a line is read as a tagged one. -/
def isTagged (l : List Char) : Bool := (item? l).any (! ·.isPlain)

/-- What a line says, without blanks around it. -/
def said (l : List Char) : String := String.ofList (trim (content l))

end Line

/-- A line, and lines that go on with its text. -/
structure Run where
  first : List Char
  rest : List (List Char)
  deriving DecidableEq, Repr

namespace Run

def lines (r : Run) : List (List Char) := r.first :: r.rest

/-- The first line decides what a run is, and is a summary if it has no tag. Its text is followed by
what the other lines say. -/
def item? (r : Run) : Option Item :=
  (Line.item? r.first).map fun i =>
    (if i.isPlain then .summary "" else i).withText
      ("\n".intercalate (i.text :: r.rest.map Line.said))

end Run

/-- A cut of lines into runs: a tagged line begins one, and no other line does but the first. -/
structure Cut (ls : List (List Char)) (runs : List Run) : Prop where
  whole : runs.flatMap Run.lines = ls
  continued : ∀ r ∈ runs, ∀ l ∈ r.rest, Line.isTagged l = false
  begun : ∀ r ∈ runs.tail, Line.isTagged r.first = true

/-- A line before some runs goes to the first of them, unless this one begins with a tag. -/
def precede (l : List Char) : List Run → List Run
  | [] => [⟨l, []⟩]
  | r :: rs => if Line.isTagged r.first then ⟨l, []⟩ :: r :: rs else ⟨l, r.lines⟩ :: rs

def runsOf (ls : List (List Char)) : List Run := ls.foldr precede []

theorem Cut.cons {ls : List (List Char)} {runs : List Run} (h : Cut ls runs) (l : List Char) :
    Cut (l :: ls) (precede l runs) := by
  obtain ⟨rfl, hcontinued, hbegun⟩ := h
  cases runs with
  | nil => exact ⟨rfl, by simp [precede], by simp [precede]⟩
  | cons r rs =>
    obtain ⟨hr, hrs⟩ := List.forall_mem_cons.mp hcontinued
    by_cases htag : Line.isTagged r.first = true
    · rw [precede, if_pos htag]
      refine ⟨rfl, ?_, List.forall_mem_cons.mpr ⟨htag, hbegun⟩⟩
      exact List.forall_mem_cons.mpr ⟨by simp, hcontinued⟩
    · rw [precede, if_neg htag]
      refine ⟨rfl, ?_, hbegun⟩
      rw [Bool.not_eq_true] at htag
      exact List.forall_mem_cons.mpr ⟨List.forall_mem_cons.mpr ⟨htag, hr⟩, hrs⟩

/-- A cut of lines is a cut of those after the first, with the first before them. -/
theorem Cut.exists_of_cons {l : List Char} {ls : List (List Char)} {runs : List Run}
    (h : Cut (l :: ls) runs) : ∃ rs, Cut ls rs ∧ runs = precede l rs := by
  obtain ⟨hwhole, hcontinued, hbegun⟩ := h
  cases runs with
  | nil => cases hwhole
  | cons r rs =>
    obtain ⟨first, rest⟩ := r
    obtain ⟨rfl, rfl⟩ := List.cons.inj hwhole
    obtain ⟨hrest, hrs⟩ := List.forall_mem_cons.mp hcontinued
    cases rest with
    | nil =>
      refine ⟨rs, ⟨rfl, hrs, fun r hr => hbegun r (List.mem_of_mem_tail hr)⟩, ?_⟩
      cases rs with
      | nil => rfl
      | cons r rs => rw [precede, if_pos (hbegun r List.mem_cons_self)]
    | cons m rest =>
      obtain ⟨hm, hrest⟩ := List.forall_mem_cons.mp hrest
      refine ⟨⟨m, rest⟩ :: rs, ⟨rfl, List.forall_mem_cons.mpr ⟨hrest, hrs⟩, hbegun⟩, ?_⟩
      rw [precede, if_neg (by simp [hm])]
      rfl

/-- Lines are cut into runs in one way. -/
theorem cut_iff {ls : List (List Char)} {runs : List Run} : Cut ls runs ↔ runs = runsOf ls := by
  induction ls generalizing runs with
  | nil =>
    constructor
    · intro h
      cases runs with
      | nil => rfl
      | cons r rs => cases h.whole
    · rintro rfl
      exact ⟨rfl, by simp [runsOf], by simp [runsOf]⟩
  | cons l ls ih =>
    constructor
    · intro h
      obtain ⟨rs, hrs, rfl⟩ := h.exists_of_cons
      rw [ih.mp hrs]
      rfl
    · rintro rfl
      exact (ih.mpr rfl).cons l

/-! ### The items of runs -/

theorem Item.withText_append (i : Item) (t : String) (more : String) :
    (i.withText t).append more = i.withText (t ++ more) := by
  cases i <;> rfl

/-- A line that is not tagged is plain. -/
theorem item?_of_not_isTagged {l : List Char} (hl : (Line.item? l).isSome = true)
    (h : Line.isTagged l = false) : Line.item? l = some (.plain (Line.said l)) := by
  have hne : Line.content l ≠ [] := by
    rw [ne_eq, ← Line.item?_eq_none_iff]
    exact Option.isSome_iff_ne_none.mp hl
  have hitem := Line.item?_of_content hne
  have hsaid : trim (Line.content l) = trimEnd (Line.content l) := by
    rw [trim, trimStart_eq_self (Line.isBlank_head?_content l)]
  rw [Line.said, hsaid]
  cases ht : Line.tagged? (Line.content l) with
  | none => simpa [ht] using hitem
  | some i =>
    have hi := (Line.tagged_of_tagged? ht).isPlain
    simp [Line.isTagged, hitem, ht, hi] at h

/-- The first item of a run opens it: it is added as it is, or as a summary if there is nothing that
it could go on with. -/
theorem foldStep_first {done : List Item} {i : Item} (h : done = [] ∨ i.isPlain = false) :
    foldStep done i = (if i.isPlain then .summary "" else i).withText i.text :: done := by
  cases hi : i.isPlain with
  | false =>
    rw [foldStep_of_not_plain hi]
    cases i <;> rfl
  | true =>
    obtain rfl : done = [] := by simpa [hi] using h
    cases i with
    | plain t => rfl
    | _ => cases hi

/-- Lines below a text, each with its line feed. -/
theorem append_flatMap_newline (t : String) (ps : List (List Char)) :
    t ++ String.ofList (ps.flatMap ('\n' :: ·)) = "\n".intercalate (t :: ps.map String.ofList) := by
  have hps : (ps.map String.ofList).map String.toList = ps := by
    simp [Function.comp_def]
  rw [← String.toList_inj, String.toList_intercalate, List.map_cons, hps, String.toList_append,
    String.toList_ofList]
  exact (intercalate_newline t.toList ps).symm

/-- One run after others is one item more. -/
theorem foldl_run {done : List Item} {r : Run} (hsome : ∀ l ∈ r.lines, (Line.item? l).isSome = true)
    (hrest : ∀ l ∈ r.rest, Line.isTagged l = false)
    (hfirst : done = [] ∨ Line.isTagged r.first = true) :
    ∃ j, r.item? = some j ∧ (r.lines.filterMap Line.item?).foldl foldStep done = j :: done := by
  obtain ⟨first, rest⟩ := r
  obtain ⟨hf, hsome⟩ := List.forall_mem_cons.mp hsome
  obtain ⟨i, hi⟩ := Option.isSome_iff_exists.mp hf
  have hplain : rest.filterMap Line.item? =
      (rest.map fun l => trim (Line.content l)).map fun p => Item.plain (String.ofList p) := by
    rw [List.map_map, ← List.filterMap_eq_map]
    exact List.filterMap_congr fun l hl => item?_of_not_isTagged (hsome l hl) (hrest l hl)
  have hopen : done = [] ∨ i.isPlain = false := by
    simpa [Line.isTagged, hi] using hfirst
  refine ⟨_, by rw [Run.item?, hi, Option.map_some], ?_⟩
  rw [Run.lines, List.filterMap_cons_some hi, List.foldl_cons, hplain, foldStep_first hopen,
    foldl_plain, Item.withText_append, append_flatMap_newline, List.map_map]
  rfl

theorem foldl_runs (done : List Item) {runs : List Run}
    (hsome : ∀ r ∈ runs, ∀ l ∈ r.lines, (Line.item? l).isSome = true)
    (hrest : ∀ r ∈ runs, ∀ l ∈ r.rest, Line.isTagged l = false)
    (hhead : done = [] ∨ ∀ r ∈ runs.head?, Line.isTagged r.first = true)
    (htail : ∀ r ∈ runs.tail, Line.isTagged r.first = true) :
    ∃ items : List Item, runs.map Run.item? = items.map some ∧
      ((runs.flatMap Run.lines).filterMap Line.item?).foldl foldStep done =
        items.reverse ++ done := by
  induction runs generalizing done with
  | nil => exact ⟨[], rfl, rfl⟩
  | cons r rs ih =>
    obtain ⟨hr, hrs⟩ := List.forall_mem_cons.mp hsome
    obtain ⟨hcont, hconts⟩ := List.forall_mem_cons.mp hrest
    obtain ⟨j, hj, hfold⟩ := foldl_run hr hcont (hhead.imp_right fun h => h r rfl)
    -- from the second run on there is an item before, and all runs begin with a tag
    obtain ⟨items, hitems, hfolds⟩ := ih (j :: done) hrs hconts
      (.inr fun q hq => htail q (List.mem_of_mem_head? hq))
      (fun q hq => htail q (List.mem_of_mem_tail hq))
    refine ⟨j :: items, by rw [List.map_cons, hj, hitems, List.map_cons], ?_⟩
    rw [List.flatMap_cons, List.filterMap_append, List.foldl_append, hfold, hfolds,
      List.reverse_cons, List.append_assoc]
    rfl

/-! ### The items of a body -/

/-- The lines of a body that say something. -/
def spoken (body : List Char) : List (List Char) :=
  (lines body).filter fun l => (Line.item? l).isSome

theorem filterMap_spoken (body : List Char) :
    (spoken body).filterMap Line.item? = parseLines body := by
  rw [spoken, parseLines, List.filterMap_filter]
  apply List.filterMap_congr
  intro l _
  cases Line.item? l <;> rfl

theorem map_item?_of_cut {body : List Char} {runs : List Run} (h : Cut (spoken body) runs) :
    runs.map Run.item? = (parseBody body).map some := by
  have hsome : ∀ r ∈ runs, ∀ l ∈ r.lines, (Line.item? l).isSome = true := by
    intro r hr l hl
    have hmem : l ∈ spoken body := h.whole ▸ List.mem_flatMap.mpr ⟨r, hr, hl⟩
    exact (List.mem_filter.mp hmem).2
  obtain ⟨items, hitems, hfold⟩ := foldl_runs [] hsome h.continued (.inl rfl) h.begun
  rw [h.whole, filterMap_spoken, List.append_nil] at hfold
  rw [hitems, parseBody, fold, hfold, List.reverse_reverse]

/-- Without a tag all lines are one run. -/
theorem cut_of_untagged {l : List Char} {ls : List (List Char)}
    (h : ∀ m ∈ ls, Line.isTagged m = false) : Cut (l :: ls) [⟨l, ls⟩] :=
  ⟨by simp [Run.lines], by simpa using h, by simp⟩

/-- A body without a tag is one summary, or nothing at all. -/
theorem parseBody_of_untagged {body : List Char}
    (h : ∀ l ∈ lines body, Line.isTagged l = false) :
    parseBody body = if ∀ l ∈ lines body, Line.item? l = none then []
      else [.summary ("\n".intercalate ((spoken body).map Line.said))] := by
  have hmem : ∀ l ∈ spoken body, (Line.item? l).isSome = true ∧ Line.isTagged l = false :=
    fun l hl => ⟨(List.mem_filter.mp hl).2, h l (List.mem_filter.mp hl).1⟩
  split
  · next hnone =>
    have hlines : parseLines body = [] := by
      rw [parseLines, List.filterMap_eq_nil_iff]
      exact hnone
    rw [parseBody, hlines, fold_nil]
  · next hsome =>
    cases hs : spoken body with
    | nil =>
      refine absurd (fun l hl => ?_) hsome
      exact Option.not_isSome_iff_eq_none.mp (List.filter_eq_nil_iff.mp hs l hl)
    | cons l ls =>
      rw [hs] at hmem
      obtain ⟨hl, hls⟩ := List.forall_mem_cons.mp hmem
      have hcut : Cut (spoken body) [⟨l, ls⟩] := hs ▸ cut_of_untagged fun m hm => (hls m hm).2
      have hitem : Run.item? ⟨l, ls⟩ =
          some (.summary ("\n".intercalate ((l :: ls).map Line.said))) := by
        rw [Run.item?, item?_of_not_isTagged hl.1 hl.2]
        rfl
      have hmap := map_item?_of_cut hcut
      rw [List.map_singleton, hitem] at hmap
      obtain ⟨i, hi, hsummary⟩ := List.map_eq_singleton_iff.mp hmap.symm
      rw [hi, Option.some.inj hsummary]

/-- The lines of a body that say something are cut into runs in one way, and the items are those of
the runs, one for each. Without any tag there is one summary of all that is said. -/
theorem body_items_by_runs (body : List Char) :
    ∃ runs, (∀ rs, Cut (spoken body) rs ↔ rs = runs) ∧
      runs.map Run.item? = (parseBody body).map some ∧
      ((∀ l ∈ lines body, Line.isTagged l = false) →
        parseBody body = if ∀ l ∈ lines body, Line.item? l = none then []
          else [.summary ("\n".intercalate ((spoken body).map Line.said))]) :=
  ⟨runsOf (spoken body), fun _ => cut_iff, map_item?_of_cut (cut_iff.mpr rfl),
    parseBody_of_untagged⟩

/-- Blank lines and lines without a tag before, between and after tagged ones, which end in different
ways. -/
def mixedBody : List Char :=
  "\n * Counts up.\r\n * *\r@note wraps\x0b  around \u2028 * @port\n@port clk: Clock\n*\n* rising".toList

theorem body_items_by_runs_mixedBody :
    (∃ runs, Cut (spoken mixedBody) runs ∧ runs.length = 3 ∧
      runs.map Run.item? = (parseBody mixedBody).map some) ∧
    parseBody mixedBody =
      [.summary "Counts up.\n*", .simple .note "wraps\naround\n@port",
       .named .port "clk" " Clock\nrising"] := by
  obtain ⟨runs, hcut, hitems, -⟩ := body_items_by_runs mixedBody
  have hparse : parseBody mixedBody =
      [.summary "Counts up.\n*", .simple .note "wraps\naround\n@port",
       .named .port "clk" " Clock\nrising"] := by decide +kernel
  refine ⟨⟨runs, (hcut runs).mpr rfl, ?_, hitems⟩, hparse⟩
  have hlength := congrArg List.length hitems
  rw [List.length_map, List.length_map, hparse] at hlength
  exact hlength

end DesignDoc.Annotation
