import DesignDoc.Annotation.Item

/-! Folding: a plain line continues the item before it, on a line of its own, and opens a summary
if there is no such item. -/

namespace DesignDoc.Annotation

/-- Add one item to a folded list that stands in reverse. -/
def foldStep (done : List Item) (i : Item) : List Item :=
  match i, done with
  | .plain t, [] => [.summary t]
  | .plain t, last :: rest => last.append ("\n" ++ t) :: rest
  | i, done => i :: done

def fold (items : List Item) : List Item := (items.foldl foldStep []).reverse

@[simp] theorem fold_nil : fold [] = [] := rfl

theorem foldStep_of_not_plain {i : Item} (h : i.isPlain = false) (done : List Item) :
    foldStep done i = i :: done := by
  cases i <;> simp_all [foldStep, Item.isPlain]

/-- A plain item is never added as such. -/
theorem isPlain_of_mem_foldStep {done : List Item} (h : ∀ j ∈ done, j.isPlain = false) (i : Item) :
    ∀ j ∈ foldStep done i, j.isPlain = false := by
  intro j hj
  cases i with
  | plain t =>
    cases done with
    | nil =>
      obtain rfl := List.mem_singleton.mp hj
      rfl
    | cons last rest =>
      rcases List.mem_cons.mp hj with rfl | hj
      · rw [Item.isPlain_append]
        exact h last List.mem_cons_self
      · exact h j (List.mem_cons_of_mem _ hj)
  | _ =>
    rcases List.mem_cons.mp hj with rfl | hj
    · rfl
    · exact h j hj

theorem isPlain_of_mem_foldl {done : List Item} (h : ∀ j ∈ done, j.isPlain = false)
    (items : List Item) : ∀ j ∈ items.foldl foldStep done, j.isPlain = false := by
  induction items generalizing done with
  | nil => exact h
  | cons i items ih => exact ih (isPlain_of_mem_foldStep h i)

/-- No plain item is left after folding. -/
theorem isPlain_of_mem_fold {items : List Item} {i : Item} (h : i ∈ fold items) :
    i.isPlain = false :=
  isPlain_of_mem_foldl (by simp) items i (List.mem_reverse.mp h)

end DesignDoc.Annotation
