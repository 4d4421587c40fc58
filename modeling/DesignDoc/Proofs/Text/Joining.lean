import DesignDoc.Proofs.Text.Spacing

/-! Texts side by side. Texts that are joined stand in their order with one space between those that
are not empty, so it makes no difference whether some of them were joined before, and empty ones can
be left out. A joined text has no blank at its ends if the texts in it have none. -/

namespace DesignDoc.Text

/-! ### Texts without blanks around them -/

/-- Neither the first nor the last character is blank. -/
def Tight (s : String) : Prop :=
  (∀ c ∈ s.toList.head?, isBlank c = false) ∧ ∀ c ∈ s.toList.getLast?, isBlank c = false

theorem tight_empty : Tight "" := ⟨by simp, by simp⟩

theorem tight_trimmed (s : String) : Tight (trimmed s) := by
  rw [Tight, trimmed, String.toList_ofList, trim]
  refine ⟨fun c hc => ?_, isBlank_getLast?_trimEnd _⟩
  obtain ⟨t, ht⟩ := List.head?_eq_some_iff.mp hc
  -- what is left at the end starts as it did before
  obtain ⟨u, hu⟩ := trimEnd_isPrefix (trimStart s.toList)
  apply isBlank_head?_trimStart s.toList
  rw [← hu, ht]
  rfl

theorem Spaced.tight {s : String} (h : Spaced s.toList) : Tight s :=
  ⟨h.isBlank_head?, h.isBlank_getLast?⟩

/-- Only the outer ends of two texts count. -/
theorem Tight.append {s t : String} (hs : Tight s) (ht : Tight t) (hs' : s ≠ "") (ht' : t ≠ "")
    (between : String) : Tight (s ++ between ++ t) := by
  rw [← String.toList_inj.ne] at hs' ht'
  rw [Tight, String.toList_append, String.toList_append]
  constructor
  · rw [List.append_assoc, List.head?_append_of_ne_nil _ hs']
    exact hs.1
  · rw [List.getLast?_append_of_ne_nil _ ht']
    exact ht.2

/-! ### Joined texts -/

@[simp] theorem joined_nil : joined [] = "" := by simp [joined]

theorem joined_singleton (t : String) : joined [t] = t := by
  by_cases h : t = "" <;> simp [joined, h]

theorem joined_pair (s t : String) :
    joined [s, t] = if s = "" then t else if t = "" then s else s ++ " " ++ t := by
  by_cases hs : s = "" <;> by_cases ht : t = "" <;> simp [joined, hs, ht]

/-- Where there is nothing to join, the joined text is empty, and only there. -/
theorem joined_eq_empty {ts : List String} : joined ts = "" ↔ ts.filter (· ≠ "") = [] := by
  unfold joined
  cases h : ts.filter (· ≠ "") with
  | nil => simp
  | cons t us =>
    have ht : t ≠ "" := by
      have hm : t ∈ ts.filter (· ≠ "") := h ▸ List.mem_cons_self
      simpa using List.of_mem_filter hm
    cases us <;> simp [ht]

theorem joined_eq_empty_iff {ts : List String} : joined ts = "" ↔ ∀ t ∈ ts, t = "" := by
  rw [joined_eq_empty, List.filter_eq_nil_iff]
  simp

/-- Joining goes part by part. -/
theorem joined_append (ss ts : List String) :
    joined (ss ++ ts) = joined [joined ss, joined ts] := by
  rw [joined_pair]
  by_cases hs : joined ss = ""
  · rw [if_pos hs, joined, List.filter_append, joined_eq_empty.mp hs, List.nil_append, joined]
  by_cases ht : joined ts = ""
  · rw [if_neg hs, if_pos ht, joined, List.filter_append, joined_eq_empty.mp ht, List.append_nil,
      joined]
  · have hss := joined_eq_empty.not.mp hs
    have hts := joined_eq_empty.not.mp ht
    rw [if_neg hs, if_neg ht, joined, List.filter_append,
      String.intercalate_append_of_ne_nil hss hts, joined, joined]

/-- Texts that were joined before can as well be joined now, and so can those after them. -/
theorem joined_cons_joined {ts us : List String} (h : joined ts = joined us) (ss : List String) :
    joined (joined ss :: ts) = joined (ss ++ us) := by
  rw [← List.singleton_append, joined_append, joined_singleton, h, ← joined_append]

theorem tight_joined {ts : List String} (h : ∀ t ∈ ts, Tight t) : Tight (joined ts) := by
  induction ts with
  | nil => exact tight_empty
  | cons t ts ih =>
    have ht : Tight t := h t List.mem_cons_self
    have hts : Tight (joined ts) := ih fun u hu => h u (List.mem_cons_of_mem t hu)
    rw [← List.singleton_append, joined_append, joined_singleton, joined_pair]
    split_ifs with hempty hempty'
    · exact hts
    · exact ht
    · exact ht.append hts hempty hempty' " "

theorem nonempty?_eq_none_iff {s : String} : nonempty? s = none ↔ s = "" := by
  simp [nonempty?]

end DesignDoc.Text
