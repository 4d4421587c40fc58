import Mathlib.Data.List.DropRight
import DesignDoc.Text.Lines

/-! What trimming and the cut into lines leave of a text. A trimmed text has no blank at its end and
stands in the text as it was; a line has no terminator in it and stands in the text too. -/

namespace DesignDoc.Text

/-! ### Trimming -/

theorem trimStart_suffix (s : List Char) : trimStart s <:+ s := List.dropWhile_suffix _

theorem trimStart_eq_self {s : List Char} (h : ∀ c ∈ s.head?, isBlank c = false) :
    trimStart s = s := by
  cases s with
  | nil => rfl
  | cons c s => exact trimStart_cons_of_not_blank (h c rfl) s

theorem isBlank_head?_trimStart (s : List Char) :
    ∀ c ∈ (trimStart s).head?, isBlank c = false := by
  intro c hc
  have h := List.head?_dropWhile_not isBlank s
  rwa [show (s.dropWhile isBlank).head? = some c from hc] at h

theorem trimStart_blanks_append {ws : List Char} (h : ∀ c ∈ ws, isBlank c = true)
    (s : List Char) : trimStart (ws ++ s) = trimStart s := List.dropWhile_append_of_pos h

/-- The blanks that are cut away at the start. -/
theorem exists_blanks_append_trimStart (s : List Char) :
    ∃ ws, (∀ c ∈ ws, isBlank c = true) ∧ s = ws ++ trimStart s :=
  ⟨s.takeWhile isBlank, fun _ hc => List.mem_takeWhile_imp hc,
    List.takeWhile_append_dropWhile.symm⟩

theorem trimEnd_isPrefix (s : List Char) : trimEnd s <+: s := List.rdropWhile_prefix isBlank s

theorem trimEnd_eq_self {s : List Char} (h : ∀ c ∈ s.getLast?, isBlank c = false) :
    trimEnd s = s :=
  List.rdropWhile_eq_self_iff.mpr fun hs => by simp [h _ (List.getLast?_eq_some_getLast hs)]

theorem isBlank_getLast?_trimEnd (s : List Char) :
    ∀ c ∈ (trimEnd s).getLast?, isBlank c = false := by
  intro c hc
  obtain ⟨hs, rfl⟩ := List.mem_getLast?_eq_getLast hc
  exact Bool.eq_false_iff.mpr (List.rdropWhile_last_not isBlank s hs)

/-- A character that is not blank protects itself from being cut away. -/
theorem trimEnd_cons_of_not_blank {c : Char} (h : isBlank c = false) (s : List Char) :
    trimEnd (c :: s) = c :: trimEnd s := by
  rw [trimEnd, List.reverse_cons, List.dropWhile_append]
  split <;> simp_all [trimEnd]

/-! ### Lines -/

/-- No character of a text ends a line. -/
def Unbroken (s : List Char) : Prop := ∀ c ∈ s, isBreak c = false

-- the characters are tested one after the other, not all characters for membership
instance (s : List Char) : Decidable (Unbroken s) :=
  decidable_of_iff (s.all (! isBreak ·) = true) (by simp [Unbroken])

theorem Unbroken.of_infix {s t : List Char} (h : Unbroken t) (hs : s <:+: t) : Unbroken s :=
  fun c hc => h c (hs.mem hc)

theorem Unbroken.not_mem_newline {s : List Char} (h : Unbroken s) : '\n' ∉ s := fun hm =>
  absurd (h _ hm) (by decide)

theorem extendFirst_eq (c : Char) (ls : List (List Char)) :
    extendFirst c ls = (c :: ls.headD []) :: ls.tail := by
  cases ls <;> rfl

/-- Where no carriage return meets a line feed, a break is one character. -/
theorem lines_break {c : Char} {s : List Char} (hc : isBreak c = true)
    (h : c = '\r' → s.head? ≠ some '\n') : lines (c :: s) = [] :: lines s := by
  rw [lines]
  · rw [if_pos hc]
  · rintro t rfl rfl
    exact h rfl rfl

theorem lines_newline (s : List Char) : lines ('\n' :: s) = [] :: lines s :=
  lines_break (by decide) (by simp)

/-- An unbroken text before a break is the line that ends there. -/
theorem lines_append_of_lines {l s : List Char} {ls : List (List Char)} (h : Unbroken l)
    (hs : lines s = [] :: ls) : lines (l ++ s) = l :: ls := by
  induction l with
  | nil => exact hs
  | cons c l ih =>
    have hl : Unbroken l := fun d hd => h d (List.mem_cons_of_mem c hd)
    rw [List.cons_append, lines_cons_of_not_break (h c List.mem_cons_self), ih hl]
    rfl

/-- A line feed after an unbroken text makes a line of it. -/
theorem lines_append_newline {l : List Char} (h : Unbroken l) (s : List Char) :
    lines (l ++ '\n' :: s) = l :: lines s := lines_append_of_lines h (lines_newline s)

theorem headD_lines_isPrefix (s : List Char) : (lines s).headD [] <+: s := by
  fun_induction lines s with
  | case1 => simp
  | case2 s ih => simp
  | case3 c s _ hc ih => simp
  | case4 c s _ hc ih => simpa [extendFirst_eq] using ih

/-- Lines are unbroken parts of the text. -/
theorem unbroken_and_infix_of_mem_lines {s l : List Char} (h : l ∈ lines s) :
    Unbroken l ∧ l <:+: s := by
  fun_induction lines s generalizing l with
  | case1 => simp at h
  | case2 s ih =>
    rcases List.mem_cons.mp h with rfl | h
    · simp [Unbroken]
    · exact ⟨(ih h).1, List.infix_cons (List.infix_cons (ih h).2)⟩
  | case3 c s _ hc ih =>
    rcases List.mem_cons.mp h with rfl | h
    · simp [Unbroken]
    · exact ⟨(ih h).1, List.infix_cons (ih h).2⟩
  | case4 c s _ hc ih =>
    rw [extendFirst_eq] at h
    rcases List.mem_cons.mp h with rfl | h
    · -- the first of the lines after `c` is a prefix, which `c` can be put in front of
      refine ⟨?_, (List.cons_prefix_cons.mpr ⟨rfl, headD_lines_isPrefix s⟩).isInfix⟩
      cases hs : lines s with
      | nil => simp_all [Unbroken]
      | cons l ls =>
        have hl : Unbroken l := (ih (by simp [hs])).1
        simp_all [Unbroken]
    · have hl := ih (List.mem_of_mem_tail h)
      exact ⟨hl.1, List.infix_cons hl.2⟩

/-! ### The first line of a text -/

/-- A line can end where the text starts: there is nothing, or a break. -/
def AtLineEnd (s : List Char) : Prop := ∀ c ∈ s.head?, isBreak c = true

instance (s : List Char) : Decidable (AtLineEnd s) :=
  decidable_of_iff (s.head?.all isBreak = true) (by simp [AtLineEnd, Option.all_eq_true])

@[simp] theorem atLineEnd_nil : AtLineEnd [] := by simp [AtLineEnd]

@[simp] theorem atLineEnd_cons {c : Char} {s : List Char} :
    AtLineEnd (c :: s) ↔ isBreak c = true := by
  simp [AtLineEnd]

theorem exists_lines_of_break {c : Char} (hc : isBreak c = true) (s : List Char) :
    ∃ ls, lines (c :: s) = [] :: ls := by
  by_cases h : c = '\r' ∧ s.head? = some '\n'
  · obtain ⟨rfl, hs⟩ := h
    obtain ⟨t, rfl⟩ := List.head?_eq_some_iff.mp hs
    exact ⟨lines t, lines_crlf t⟩
  · exact ⟨lines s, lines_break hc fun hr hn => h ⟨hr, hn⟩⟩

theorem lines_of_unbroken {l : List Char} (h : Unbroken l) (hne : l ≠ []) : lines l = [l] := by
  induction l with
  | nil => exact absurd rfl hne
  | cons c l ih =>
    have hl : Unbroken l := fun d hd => h d (List.mem_cons_of_mem c hd)
    rw [lines_cons_of_not_break (h c List.mem_cons_self)]
    cases l with
    | nil => rfl
    | cons d l =>
      rw [ih hl (List.cons_ne_nil d l)]
      rfl

/-- The first line goes up to the first break. -/
theorem headD_lines_append {l s : List Char} (hl : Unbroken l) (hs : AtLineEnd s) :
    (lines (l ++ s)).headD [] = l := by
  cases s with
  | nil =>
    rw [List.append_nil]
    by_cases hne : l = []
    · simp [hne]
    · simp [lines_of_unbroken hl hne]
  | cons c s =>
    obtain ⟨ls, hls⟩ := exists_lines_of_break (atLineEnd_cons.mp hs) s
    rw [lines_append_of_lines hl hls, List.headD_cons]

/-- Every text has a first line, which may be empty. -/
theorem exists_first_line (s : List Char) : ∃ l t, s = l ++ t ∧ Unbroken l ∧ AtLineEnd t := by
  refine ⟨s.takeWhile (! isBreak ·), s.dropWhile (! isBreak ·),
    List.takeWhile_append_dropWhile.symm, fun c hc => ?_, fun c hc => ?_⟩
  · simpa using List.mem_takeWhile_imp hc
  · have h := List.head?_dropWhile_not (! isBreak ·) s
    rw [Option.mem_def.mp hc] at h
    simpa using h

/-- Texts are built from their end, one line with its break at a time. -/
@[elab_as_elim] theorem lineInduction {motive : List Char → Prop}
    (last : ∀ l, Unbroken l → motive l)
    (line : ∀ l c s, Unbroken l → isBreak c = true → motive s → motive (l ++ c :: s))
    (s : List Char) : motive s := by
  obtain ⟨l, t, hs, hl, ht⟩ := exists_first_line s
  cases t with
  | nil =>
    rw [hs, List.append_nil]
    exact last l hl
  | cons c t =>
    have ih := lineInduction last line t
    rw [hs]
    exact line l c t hl (atLineEnd_cons.mp ht) ih
termination_by s.length
decreasing_by
  rw [hs, List.length_append, List.length_cons]
  omega

/-! ### Line feeds of either kind -/

/-- The text with a carriage return before every line feed. -/
def crlf (s : List Char) : List Char := s.flatMap fun c => if c = '\n' then ['\r', '\n'] else [c]

@[simp] theorem crlf_nil : crlf [] = [] := rfl

@[simp] theorem crlf_newline (s : List Char) : crlf ('\n' :: s) = '\r' :: '\n' :: crlf s := rfl

theorem crlf_cons {c : Char} (h : c ≠ '\n') (s : List Char) : crlf (c :: s) = c :: crlf s := by
  simp [crlf, h]

theorem crlf_append (s t : List Char) : crlf (s ++ t) = crlf s ++ crlf t := List.flatMap_append

theorem crlf_of_unbroken {l : List Char} (h : Unbroken l) : crlf l = l := by
  induction l with
  | nil => rfl
  | cons c l ih =>
    have hc : c ≠ '\n' := fun hn => h.not_mem_newline (hn ▸ List.mem_cons_self)
    rw [crlf_cons hc, ih fun d hd => h d (List.mem_cons_of_mem c hd)]

theorem AtLineEnd.crlf {s : List Char} (h : AtLineEnd s) : AtLineEnd (crlf s) := by
  cases s with
  | nil => exact h
  | cons c s =>
    by_cases hc : c = '\n'
    · rw [hc, crlf_newline, atLineEnd_cons]
      decide
    · rw [crlf_cons hc, atLineEnd_cons]
      exact atLineEnd_cons.mp h

end DesignDoc.Text
