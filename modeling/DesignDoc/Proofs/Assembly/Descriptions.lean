import DesignDoc.Assembly.Association

/-! Descriptions by name. Items that document a port or a parameter are taken one after the other,
and each of them overwrites the description of the first record of its name. In the end the first
record of a name has the text of the last item on this name, and all other records are as they
were. -/

namespace DesignDoc.Assembly

open DesignDoc.Annotation DesignDoc.Document

/-! ### Changes of first members -/

theorem map_updateFirst {α β : Type} {f : α → α} {g : α → β} (h : ∀ a, g (f a) = g a)
    (p : α → Bool) (as : List α) : (updateFirst p f as).map g = as.map g := by
  induction as with
  | nil => rfl
  | cons a as ih =>
    cases hp : p a with
    | true => simp [updateFirst, hp, h]
    | false => simp [updateFirst, hp, ih]

/-- What each item keeps, a list of items keeps. -/
theorem map_foldl {α β : Type} {f : List α → Item → List α} {g : α → β}
    (h : ∀ as i, (f as i).map g = as.map g) (items : List Item) (as : List α) :
    (items.foldl f as).map g = as.map g := by
  induction items generalizing as with
  | nil => rfl
  | cons i items ih => rw [List.foldl_cons, ih, h]

theorem getElem?_updateFirst {α : Type} (p : α → Bool) (f : α → α) (as : List α) (k : Nat) :
    (updateFirst p f as)[k]? =
      as[k]?.map fun a => if p a = true ∧ ∀ b ∈ as.take k, p b = false then f a else a := by
  induction as generalizing k with
  | nil => rfl
  | cons a as ih =>
    cases hp : p a with
    | true => cases k <;> simp [updateFirst, hp]
    | false => cases k <;> simp [updateFirst, hp, ih]

/-! ### Documentation of a name -/

/-- The text of an item that documents a name. -/
def textOn? (tag : NamedTag) (name : String) : Item → Option String
  | .named t n text => if t = tag ∧ n = name then some text else none
  | _ => none

/-- The text of the last item that documents a name. -/
def lastText? (tag : NamedTag) (name : String) (items : List Item) : Option String :=
  items.reverse.findSome? (textOn? tag name)

theorem lastText?_cons (tag : NamedTag) (name : String) (i : Item) (items : List Item) :
    lastText? tag name (i :: items) = (lastText? tag name items).or (textOn? tag name i) := by
  rw [lastText?, List.reverse_cons, List.findSome?_append]
  cases h : textOn? tag name i <;> simp [lastText?, h]

/-- Records that are documented by their name. -/
structure Documented (α : Type) where
  tag : NamedTag
  nameOf : α → String
  describe : String → α → α
  nameOf_describe : ∀ text a, nameOf (describe text a) = nameOf a
  describe_describe : ∀ text text' a, describe text (describe text' a) = describe text a

def documentedPort : Documented Port where
  tag := .port
  nameOf := Port.name
  describe text p := { p with description := text }
  nameOf_describe _ _ := rfl
  describe_describe _ _ _ := rfl

def documentedParameter : Documented Parameter where
  tag := .param
  nameOf := Parameter.name
  describe text p := { p with description := text }
  nameOf_describe _ _ := rfl
  describe_describe _ _ _ := rfl

namespace Documented

variable {α : Type} (d : Documented α)

/-- An item changes the first record of the name that it documents. -/
def note (as : List α) : Item → List α
  | .named tag name text =>
    if tag = d.tag then updateFirst (d.nameOf · = name) (d.describe text) as else as
  | _ => as

/-- What a record becomes by some items if records of the given names stand before it. -/
def resolved (items : List Item) (names : List String) (a : α) : α :=
  if d.nameOf a ∈ names then a
  else (lastText? d.tag (d.nameOf a) items).elim a (d.describe · a)

theorem map_nameOf_note (as : List α) (i : Item) :
    (d.note as i).map d.nameOf = as.map d.nameOf := by
  unfold note
  split
  · split
    · exact map_updateFirst (d.nameOf_describe _) _ as
    · rfl
  · rfl

theorem resolved_nil (names : List String) : d.resolved [] names = id := by
  funext a
  simp [resolved, lastText?]

/-- An item on another name or another kind of records leaves a record alone. -/
theorem resolved_cons_of_none {i : Item} {a : α} (h : textOn? d.tag (d.nameOf a) i = none)
    (items : List Item) (names : List String) :
    d.resolved (i :: items) names a = d.resolved items names a := by
  rw [resolved, lastText?_cons, h, Option.or_none, resolved]

/-- The text of an item is kept until another item documents the same name. -/
theorem resolved_cons_of_first {text : String} {a : α} {names : List String}
    (h : d.nameOf a ∉ names) (items : List Item) :
    d.resolved (.named d.tag (d.nameOf a) text :: items) names a =
      d.resolved items names (d.describe text a) := by
  have htext : textOn? d.tag (d.nameOf a) (.named d.tag (d.nameOf a) text) = some text := by
    simp [textOn?]
  rw [resolved, if_neg h, lastText?_cons, htext, resolved, d.nameOf_describe, if_neg h]
  cases lastText? d.tag (d.nameOf a) items with
  | none => rfl
  | some t => exact (d.describe_describe t text a).symm

theorem getElem?_note (as : List α) (i : Item) (items : List Item) (k : Nat) :
    (d.note as i)[k]?.map (d.resolved items ((as.take k).map d.nameOf)) =
      as[k]?.map (d.resolved (i :: items) ((as.take k).map d.nameOf)) := by
  unfold note
  split
  · next tag name text =>
    by_cases htag : tag = d.tag
    · subst htag
      rw [if_pos rfl, getElem?_updateFirst, Option.map_map]
      congr 1
      funext a
      by_cases hname : d.nameOf a = name
      · subst hname
        by_cases hmem : d.nameOf a ∈ (as.take k).map d.nameOf
        · obtain ⟨b, hb, hsame⟩ := List.mem_map.mp hmem
          rw [Function.comp_apply, if_neg, resolved, if_pos hmem, resolved, if_pos hmem]
          rintro ⟨-, hfirst⟩
          exact absurd hsame (of_decide_eq_false (hfirst b hb))
        · rw [Function.comp_apply, if_pos, d.resolved_cons_of_first hmem]
          refine ⟨decide_eq_true rfl, fun b hb => decide_eq_false fun hsame => hmem ?_⟩
          exact List.mem_map.mpr ⟨b, hb, hsame⟩
      · have hnone : textOn? d.tag (d.nameOf a) (.named d.tag name text) = none := by
          simp [textOn?, Ne.symm hname]
        rw [d.resolved_cons_of_none hnone]
        simp [hname]
    · rw [if_neg htag]
      congr 1
      funext a
      exact (d.resolved_cons_of_none (by simp [textOn?, htag]) _ _).symm
  · next hnamed =>
    congr 1
    funext a
    refine (d.resolved_cons_of_none ?_ _ _).symm
    cases i with
    | named tag name text => exact absurd rfl (hnamed tag name text)
    | _ => rfl

/-- Items taken one after the other leave every record resolved. -/
theorem getElem?_foldl_note (items : List Item) (as : List α) (k : Nat) :
    (items.foldl d.note as)[k]? = as[k]?.map (d.resolved items ((as.take k).map d.nameOf)) := by
  induction items generalizing as with
  | nil => rw [d.resolved_nil, Option.map_id, List.foldl_nil, id_eq]
  | cons i items ih =>
    have hnames : ((d.note as i).take k).map d.nameOf = (as.take k).map d.nameOf := by
      rw [List.map_take, List.map_take, d.map_nameOf_note]
    rw [List.foldl_cons, ih, hnames, d.getElem?_note]

/-- The first record of each name takes the text of the last item on this name, and no other record
changes. -/
structure Resolves (items : List Item) (as bs : List α) : Prop where
  length : bs.length = as.length
  taken : ∀ k a text, as[k]? = some a → (∀ b ∈ as.take k, d.nameOf b ≠ d.nameOf a) →
    lastText? d.tag (d.nameOf a) items = some text → bs[k]? = some (d.describe text a)
  untouched : ∀ k a, as[k]? = some a →
    (∃ b ∈ as.take k, d.nameOf b = d.nameOf a) ∨ lastText? d.tag (d.nameOf a) items = none →
    bs[k]? = some a

theorem resolves_foldl_note (items : List Item) (as : List α) :
    d.Resolves items as (items.foldl d.note as) where
  length := by
    have hnames := map_foldl d.map_nameOf_note items as
    simpa using congrArg List.length hnames
  taken := by
    intro k a text ha hfirst htext
    have hmem : d.nameOf a ∉ (as.take k).map d.nameOf := by
      intro hmem
      obtain ⟨b, hb, hname⟩ := List.mem_map.mp hmem
      exact hfirst b hb hname
    rw [d.getElem?_foldl_note, ha, Option.map_some, resolved, if_neg hmem, htext]
    rfl
  untouched := by
    rintro k a ha (⟨b, hb, hname⟩ | hnone)
    · have hmem : d.nameOf a ∈ (as.take k).map d.nameOf := List.mem_map.mpr ⟨b, hb, hname⟩
      rw [d.getElem?_foldl_note, ha, Option.map_some, resolved, if_pos hmem]
    · rw [d.getElem?_foldl_note, ha, Option.map_some, resolved, hnone]
      simp

end Documented

theorem describePorts_eq (items : List Item) (ports : List Port) :
    describePorts items ports = items.foldl documentedPort.note ports := by
  have hstep : describePort = documentedPort.note := by
    funext ports i
    cases i with
    | named tag name text => cases tag <;> rfl
    | _ => rfl
  rw [describePorts, hstep]

theorem describeParameters_eq (items : List Item) (parameters : List Parameter) :
    describeParameters items parameters = items.foldl documentedParameter.note parameters := by
  have hstep : describeParameter = documentedParameter.note := by
    funext parameters i
    cases i with
    | named tag name text => cases tag <;> rfl
    | _ => rfl
  rw [describeParameters, hstep]

end DesignDoc.Assembly
