import DesignDoc.Proofs.Text.Joining
import DesignDoc.Proofs.Tree.Stability
import DesignDoc.Recording.Node
import DesignDoc.Tree.Basic

/-! The texts that sources answer with. What a source is asked about may be a sequence of sequences;
its text is that of its leaves, side by side from left to right. How the leaves are grouped makes no
difference, nor do leaves without a text, and no text has a blank at either end. -/

namespace DesignDoc.Text

/-! ### Leaves -/

/-- What is no sequence, by what its text is made of. -/
inductive Leaf where
  | absent
  /-- All is kept but for the blanks around it. -/
  | verbatim (s : String)
  /-- Source text, which is cleaned. -/
  | code (source : List Char)
  deriving DecidableEq, Repr

def Leaf.text : Leaf → String
  | absent => ""
  | verbatim s => trimmed s
  | code source => Tree.cleanText source

theorem Leaf.tight_text (l : Leaf) : Tight l.text := by
  cases l with
  | absent => exact tight_empty
  | verbatim s => exact tight_trimmed s
  | code source => exact (Tree.clean_cleanText source).spaced.tight

/-- The text of leaves side by side. -/
def leafText (leaves : List Leaf) : String := joined (leaves.map Leaf.text)

/-- A text is that of leaves: it has no blank at its ends, it is their texts with one space between
those that are not empty, and it counts as absent if they are all empty. -/
structure IsTextOf (text : String) (text? : Option String) (leaves : List Leaf) : Prop where
  tight : Tight text
  text_eq : text = " ".intercalate ((leaves.map Leaf.text).filter (· ≠ ""))
  absent_iff : text? = none ↔ ∀ l ∈ leaves, l.text = ""

theorem isTextOf_leafText (leaves : List Leaf) :
    IsTextOf (leafText leaves) (nonempty? (leafText leaves)) leaves where
  tight := tight_joined (by simpa using fun l _ => Leaf.tight_text l)
  text_eq := rfl
  absent_iff := by
    rw [nonempty?_eq_none_iff, leafText, joined_eq_empty_iff]
    simp

/-- The same leaves in the same order, but for those without a text. -/
def Alike (ls ms : List Leaf) : Prop :=
  ls.filter (·.text ≠ "") = ms.filter (·.text ≠ "")

instance (ls ms : List Leaf) : Decidable (Alike ls ms) := inferInstanceAs (Decidable (_ = _))

theorem Alike.leafText_eq {ls ms : List Leaf} (h : Alike ls ms) : leafText ls = leafText ms := by
  have hf (ks : List Leaf) : leafText ks =
      " ".intercalate ((ks.filter (·.text ≠ "")).map Leaf.text) := by
    rw [leafText, joined, List.filter_map]
    rfl
  rw [hf, hf, h]

end DesignDoc.Text

/-! ### Syntax trees -/

namespace DesignDoc.Tree

open DesignDoc.Text

mutual
/-- The leaves of a tree, from left to right. Only sequences are taken apart. -/
def leaves : Tree → List Leaf
  | .absent => [.absent]
  | .comment raw => [.verbatim raw]
  | .seq members => leavesIn members
  | t => [.code t.source]
def leavesIn : List Tree → List Leaf
  | [] => []
  | t :: ts => t.leaves ++ leavesIn ts
end

mutual
theorem text_eq_leafText : ∀ t : Tree, t.text = leafText t.leaves
  | .seq members => by
    rw [text, leaves, leafText]
    exact joined_memberTexts members
  | .absent | .comment _ | .token _ _ _ | .node _ _ _ => by
    simp [text, leaves, leafText, joined_singleton, Leaf.text]
theorem joined_memberTexts : ∀ ts : List Tree,
    joined (memberTexts ts) = joined ((leavesIn ts).map Leaf.text)
  | [] => by simp [memberTexts, leavesIn]
  | t :: ts => by
    rw [memberTexts, leavesIn, List.map_append, text_eq_leafText t, leafText]
    exact joined_cons_joined (joined_memberTexts ts) _
end

end DesignDoc.Tree

/-! ### Recordings -/

namespace DesignDoc.Recording

open DesignDoc.Json DesignDoc.Text

mutual
/-- The leaves of a value, from left to right: all that is no array is displayed. -/
def valueLeaves : Value → List Leaf
  | .null => [.absent]
  | .arr items => itemLeaves items
  | v => [.verbatim v.display]
def itemLeaves : List Value → List Leaf
  | [] => []
  | v :: vs => valueLeaves v ++ itemLeaves vs
end

mutual
theorem text_eq_leafText : ∀ v : Value, v.text = leafText (valueLeaves v)
  | .arr items => by
    rw [Value.text, valueLeaves, leafText]
    exact joined_itemTexts items
  | .null | .bool _ | .int _ | .real _ | .str _ | .obj _ => by
    simp [Value.text, valueLeaves, leafText, joined_singleton, Leaf.text, Value.display]
theorem joined_itemTexts : ∀ vs : List Value,
    joined (itemTexts vs) = joined ((itemLeaves vs).map Leaf.text)
  | [] => by simp [itemTexts, itemLeaves]
  | v :: vs => by
    rw [itemTexts, itemLeaves, List.map_append, text_eq_leafText v, leafText]
    exact joined_cons_joined (joined_itemTexts vs) _
end

mutual
/-- The leaves of a handle, from left to right. -/
def Handle.leaves : Handle → List Leaf
  | .value v => valueLeaves v
  | .node n => [.verbatim n.text.display]
  | .seq members => memberLeaves members
  | .object members => [.verbatim (Handle.object members).inspect]
def memberLeaves : List Handle → List Leaf
  | [] => []
  | h :: hs => h.leaves ++ memberLeaves hs
end

mutual
/-- Every node that stands alone or in a sequence has a string for a text. -/
def Handle.Textual : Handle → Prop
  | .node n => ∃ s, n.text = .str s
  | .seq members => AllTextual members
  | .value _ | .object _ => True
def AllTextual : List Handle → Prop
  | [] => True
  | h :: hs => h.Textual ∧ AllTextual hs
end

mutual
theorem text?_eq_leafText : ∀ h : Handle, h.Textual → h.text? = some (leafText h.leaves)
  | .value v, _ => by rw [Handle.text?, Handle.leaves, text_eq_leafText]
  | .node n, ⟨s, hs⟩ => by
    simp [Handle.text?, Node.text?, hs, Handle.leaves, leafText, joined_singleton, Leaf.text]
  | .seq members, h => by
    obtain ⟨ts, hts, hjoined⟩ := exists_memberTexts members h
    rw [Handle.text?, hts, Option.map_some, hjoined, Handle.leaves, leafText]
  | .object members, _ => by
    rw [Handle.text?, Handle.leaves, leafText, List.map_singleton, joined_singleton, Leaf.text]
theorem exists_memberTexts : ∀ hs : List Handle, AllTextual hs →
    ∃ ts, memberTexts? hs = some ts ∧ joined ts = joined ((memberLeaves hs).map Leaf.text)
  | [], _ => ⟨[], by simp [memberTexts?, memberLeaves]⟩
  | h :: hs, ⟨hh, hrest⟩ => by
    obtain ⟨ts, hts, hjoined⟩ := exists_memberTexts hs hrest
    refine ⟨leafText h.leaves :: ts, ?_, ?_⟩
    · simp [memberTexts?, text?_eq_leafText h hh, hts]
    · rw [memberLeaves, List.map_append, leafText]
      exact joined_cons_joined hjoined _
end

end DesignDoc.Recording

/-! ### Nested sequences -/

namespace DesignDoc.Text

open DesignDoc.Recording

/-- The text of a tree, and that of a handle in which all nodes have texts, is the text of its
leaves; it depends neither on how they are grouped nor on leaves without a text. -/
theorem nested_texts_joined :
    (∀ t : Tree, IsTextOf t.text t.text? t.leaves) ∧
      (∀ h : Handle, h.Textual →
        ∃ text, h.text? = some text ∧ IsTextOf text (nonempty? text) h.leaves) ∧
      (∀ t u : Tree, Alike t.leaves u.leaves → t.text = u.text) ∧
      ∀ h k : Handle, h.Textual → k.Textual → Alike h.leaves k.leaves → h.text? = k.text? := by
  refine ⟨fun t => ?_, fun h hh => ⟨_, text?_eq_leafText h hh, isTextOf_leafText _⟩, ?_, ?_⟩
  · rw [Tree.text?, Tree.text_eq_leafText]
    exact isTextOf_leafText t.leaves
  · intro t u h
    rw [Tree.text_eq_leafText, Tree.text_eq_leafText, h.leafText_eq]
  · intro h k hh hk halike
    rw [text?_eq_leafText h hh, text?_eq_leafText k hk, halike.leafText_eq]

/-- A type in three parts, with a comment in one of them and parts that have no text. -/
def typeTree : Tree :=
  .seq [.token "LogicKeyword" " logic /* four states */" [],
    .seq [.absent, .node "Dimensions" [.token "" "[3:0]" [], .token "" "\n [1:0]" []] []],
    .seq [.token "" "// nothing" [], .comment " // kept "]]

/-- The parts that have a text, in one sequence. -/
def typeParts : Tree :=
  .seq [.token "LogicKeyword" " logic /* four states */" [],
    .node "Dimensions" [.token "" "[3:0]" [], .token "" "\n [1:0]" []] [], .comment " // kept "]

/-- An array in a sequence, beside an empty sequence and a node. -/
def typeHandle : Handle :=
  .seq [.value (.arr [.str " wire", .null, .arr [.str "\t", .bool true]]), .seq [],
    .node { text := .str " a  b " }]

/-- The same leaves in one sequence, without those that are blank. -/
def flatHandle : Handle :=
  .seq [.value (.str " wire"), .value (.bool true), .node { text := .str " a  b " }]

theorem nested_texts_joined_samples :
    typeTree.text = typeParts.text ∧ typeTree.text = "logic [3:0] [1:0] // kept" ∧
      typeTree.text? ≠ none ∧
      typeHandle.Textual ∧ flatHandle.Textual ∧ typeHandle.text? = flatHandle.text? ∧
      typeHandle.text? = some "wire True a  b" ∧
      IsTextOf "wire True a  b" (some "wire True a  b") typeHandle.leaves := by
  obtain ⟨htree, hhandle, htrees, hhandles⟩ := nested_texts_joined
  have htype : typeHandle.Textual := ⟨trivial, trivial, ⟨_, rfl⟩, trivial⟩
  have hflat : flatHandle.Textual := ⟨trivial, trivial, ⟨_, rfl⟩, trivial⟩
  have htext : typeHandle.text? = some "wire True a  b" := by decide
  obtain ⟨text, htext', his⟩ := hhandle typeHandle htype
  obtain rfl := Option.some.inj (htext.symm.trans htext')
  refine ⟨htrees _ _ (by decide), by decide, ?_, htype, hflat,
    hhandles _ _ htype hflat (by decide), htext, his⟩
  rw [Ne, (htree typeTree).absent_iff]
  decide

end DesignDoc.Text
