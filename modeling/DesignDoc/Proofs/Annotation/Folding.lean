import DesignDoc.Annotation.Fold

/-! The laws of folding. A plain item ends up in the text of the item before it and leaves no other
trace: the items that are not plain keep their variants, their names and their order, and all texts
stay where they are, one below the other. What is folded already can be folded on with more. -/

namespace DesignDoc.Annotation

/-- An item without its text: its variant and its names. -/
def Item.shape (i : Item) : Item := i.withText ""

@[simp] theorem Item.shape_append (i : Item) (more : String) : (i.append more).shape = i.shape := by
  cases i <;> rfl

/-- The texts of all items, one below the other. -/
def joinedTexts (items : List Item) : String := "\n".intercalate (items.map Item.text)

/-! ### Folding in parts -/

/-- Items that are not plain are added one by one. -/
theorem foldl_of_not_plain {items : List Item} (h : ∀ i ∈ items, i.isPlain = false)
    (done : List Item) : items.foldl foldStep done = items.reverse ++ done := by
  induction items generalizing done with
  | nil => rfl
  | cons i items ih =>
    obtain ⟨hi, hitems⟩ := List.forall_mem_cons.mp h
    rw [List.foldl_cons, foldStep_of_not_plain hi, ih hitems, List.reverse_cons, List.append_assoc]
    rfl

theorem fold_of_not_plain {items : List Item} (h : ∀ i ∈ items, i.isPlain = false) :
    fold items = items := by
  rw [fold, foldl_of_not_plain h, List.append_nil, List.reverse_reverse]

theorem fold_eq_self_iff {items : List Item} :
    fold items = items ↔ ∀ i ∈ items, i.isPlain = false :=
  ⟨fun h _ hi => isPlain_of_mem_fold (h.symm ▸ hi), fold_of_not_plain⟩

/-- Folding goes on from what is folded already. -/
theorem fold_append (xs ys : List Item) :
    fold (xs ++ ys) = (ys.foldl foldStep (fold xs).reverse).reverse := by
  rw [fold, fold, List.foldl_append, List.reverse_reverse]

theorem fold_fold (items : List Item) : fold (fold items) = fold items :=
  fold_of_not_plain fun _ => isPlain_of_mem_fold

theorem fold_fold_append (xs ys : List Item) : fold (fold xs ++ ys) = fold (xs ++ ys) := by
  rw [fold_append (fold xs), fold_append xs, fold_fold]

/-! ### Texts -/

/-- A line feed inside a text and one between two texts look alike. -/
theorem intercalate_newline_merge (before after : List String) (s t : String) :
    "\n".intercalate (before ++ (s ++ ("\n" ++ t)) :: after) =
      "\n".intercalate (before ++ s :: t :: after) := by
  have hfirst : "\n".intercalate ((s ++ ("\n" ++ t)) :: after) =
      "\n".intercalate (s :: t :: after) := by
    cases after <;> simp [String.intercalate_cons_cons, String.append_assoc]
  by_cases hbefore : before = []
  · rw [hbefore, List.nil_append, List.nil_append, hfirst]
  · rw [String.intercalate_append_of_ne_nil hbefore (by simp), hfirst,
      ← String.intercalate_append_of_ne_nil hbefore (by simp)]

/-- One step leaves all texts where they are. -/
theorem joinedTexts_foldStep (done : List Item) (i : Item) (rest : List Item) :
    joinedTexts ((foldStep done i).reverse ++ rest) = joinedTexts (done.reverse ++ i :: rest) := by
  cases i with
  | plain t =>
    cases done with
    | nil => rfl
    | cons last done =>
      have hmerge := intercalate_newline_merge (done.reverse.map Item.text) (rest.map Item.text)
        last.text t
      have ht : (Item.plain t).text = t := rfl
      simpa [joinedTexts, foldStep, ht] using hmerge
  | _ => simp [foldStep]

theorem joinedTexts_foldl (done items : List Item) :
    joinedTexts (items.foldl foldStep done).reverse = joinedTexts (done.reverse ++ items) := by
  induction items generalizing done with
  | nil => rw [List.foldl_nil, List.append_nil]
  | cons i items ih => rw [List.foldl_cons, ih, joinedTexts_foldStep]

/-! ### Shapes -/

/-- One step adds an item that is not plain, and changes no more than a text otherwise. -/
theorem map_shape_foldStep {done : List Item} (h : done ≠ []) (i : Item) :
    (foldStep done i).map Item.shape =
      ([i].filter (! ·.isPlain)).map Item.shape ++ done.map Item.shape := by
  obtain ⟨last, rest, rfl⟩ := List.exists_cons_of_ne_nil h
  cases i with
  | plain t => simp [foldStep, Item.isPlain]
  | _ => rfl

theorem foldStep_ne_nil (done : List Item) (i : Item) : foldStep done i ≠ [] := by
  cases i <;> cases done <;> simp [foldStep]

theorem map_shape_foldl {done : List Item} (h : done ≠ []) (items : List Item) :
    (items.foldl foldStep done).map Item.shape =
      ((items.filter (! ·.isPlain)).map Item.shape).reverse ++ done.map Item.shape := by
  induction items generalizing done with
  | nil => rfl
  | cons i items ih =>
    rw [List.foldl_cons, ih (foldStep_ne_nil done i), map_shape_foldStep h]
    cases hi : i.isPlain <;> simp [hi]

/-- A plain item at the start opens a summary; it is the only item that folding adds. -/
theorem map_shape_fold (items : List Item) :
    (fold items).map Item.shape =
      (if items.head?.any Item.isPlain then [Item.summary ""] else []) ++
        (items.filter (! ·.isPlain)).map Item.shape := by
  cases items with
  | nil => rfl
  | cons i items =>
    rw [fold, List.map_reverse, List.foldl_cons, map_shape_foldl (foldStep_ne_nil [] i)]
    cases i with
    | plain t => simp [foldStep, Item.isPlain, Item.shape, Item.withText]
    | _ => simp [foldStep, Item.isPlain]

/-! ### The laws -/

/-- What folding does to a list of items that is followed by another. -/
structure FoldLaws (xs ys : List Item) : Prop where
  folded : ∀ i ∈ fold xs, i.isPlain = false
  fixed : fold xs = xs ↔ ∀ i ∈ xs, i.isPlain = false
  incremental : fold (fold xs ++ ys) = fold (xs ++ ys)
  idempotent : fold (fold xs) = fold xs
  /-- No text is lost, added or moved. -/
  texts : "\n".intercalate ((fold xs).map Item.text) = "\n".intercalate (xs.map Item.text)
  /-- The items that are not plain stay in order, and a summary comes before them exactly if the
  first item of all is plain. -/
  shapes : (fold xs).map Item.shape =
    (if xs.head?.any Item.isPlain then [Item.summary ""] else []) ++
      (xs.filter (! ·.isPlain)).map Item.shape

theorem fold_lawful (xs ys : List Item) : FoldLaws xs ys where
  folded _ := isPlain_of_mem_fold
  fixed := fold_eq_self_iff
  incremental := fold_fold_append xs ys
  idempotent := fold_fold xs
  texts := joinedTexts_foldl [] xs
  shapes := map_shape_fold xs

example : fold [.plain "", .plain "a", .named .port "clk" "", .plain "b", .plain ""] =
    [.summary "\na", .named .port "clk" "\nb\n"] := by decide

end DesignDoc.Annotation
