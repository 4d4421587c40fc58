import DesignDoc.Generator.Request
import DesignDoc.Proofs.Assembly.Nesting

/-! The shape of the events of a syntax tree. Without the comments they are the documented nodes in
brackets, each entered before and left after those inside of it, and a comment is left as soon as it
is entered. So the assembler never meets an end without its beginning. -/

namespace DesignDoc.Tree

open DesignDoc.Event DesignDoc.Assembly

theorem eventKind?_ne_comment (kind : String) : eventKind? kind ≠ some .comment := by
  unfold eventKind?
  split <;> simp

/-! ### Induction along a walk -/

/-- A property of streams that comments have, and that a walk keeps as it puts them together with
documented nodes. -/
structure WalkClosed (p : List (Event Tree) → Prop) : Prop where
  nil : p []
  append {xs ys : List (Event Tree)} : p xs → p ys → p (xs ++ ys)
  comment (c : Tree) : p [.enter .comment c, .leave .comment (some c)]
  node {kind : String} {k : Kind} {inner : List (Event Tree)} (n : Tree) :
    eventKind? kind = some k → p inner → p (.enter k n :: inner ++ [.leave k (some n)])

namespace WalkClosed

variable {p : List (Event Tree) → Prop}

theorem commentEvents (hp : WalkClosed p) (trivia : List Trivia) : p (commentEvents trivia) := by
  unfold Tree.commentEvents
  induction trivia.filter Trivia.isComment with
  | nil => exact hp.nil
  | cons c cs ih => exact hp.append (hp.comment (.comment c.text)) ih

/-- Comments may have been told before. -/
theorem untold (hp : WalkClosed p) (told : Bool) (trivia : List Trivia) :
    p (if told then [] else Tree.commentEvents trivia) := by
  cases told with
  | true => exact hp.nil
  | false => exact hp.commentEvents trivia

mutual
theorem walk (hp : WalkClosed p) : ∀ (t : Tree) (told : Bool), p (walk told t).1
  | .node kind children parts, told => by
    cases h : eventKind? kind with
    | none =>
      rw [walk_node_of_none h]
      exact hp.walkAll children told
    | some k =>
      rw [walk_node_of_some h, List.append_assoc]
      exact hp.append (hp.untold told _) (hp.node _ h (hp.walkAll children true))
  | .absent, _ | .comment _, _ | .token _ _ _, _ | .seq _, _ => by
    simp only [Tree.walk]
    exact hp.nil
theorem walkAll (hp : WalkClosed p) : ∀ (ts : List Tree) (told : Bool), p (walkAll told ts).1
  | [], _ => by
    simp only [Tree.walkAll]
    exact hp.nil
  | t :: ts, told => by
    by_cases ht : t.isToken = true
    · obtain ⟨kind, text, trivia, rfl⟩ := eq_token_of_isToken ht
      rw [walkAll_token]
      exact hp.append (hp.untold told trivia) (hp.walkAll ts false)
    · rw [walkAll_cons (by simpa using ht)]
      exact hp.append (hp.walk t told) (hp.walkAll ts _)
end

end WalkClosed

/-! ### Comments in pairs -/

/-- Streams in which a comment is left right after it is entered, and not otherwise. -/
inductive CommentsPaired : List (Event Tree) → Prop
  | nil : CommentsPaired []
  | pair (c : Tree) {es : List (Event Tree)} (h : CommentsPaired es) :
    CommentsPaired (.enter .comment c :: .leave .comment (some c) :: es)
  | other {e : Event Tree} {es : List (Event Tree)} (he : e.kind ≠ .comment)
    (h : CommentsPaired es) : CommentsPaired (e :: es)

theorem CommentsPaired.append {xs ys : List (Event Tree)} (hx : CommentsPaired xs)
    (hy : CommentsPaired ys) : CommentsPaired (xs ++ ys) := by
  induction hx with
  | nil => exact hy
  | pair c _ ih => exact .pair c ih
  | other he _ ih => exact .other he ih

theorem walkClosed_commentsPaired : WalkClosed CommentsPaired where
  nil := .nil
  append := .append
  comment c := .pair c .nil
  node {kind k inner} n hk hi := by
    have hc : k ≠ .comment := fun h => eventKind?_ne_comment kind (h ▸ hk)
    exact .other hc (hi.append (.other hc .nil))

/-! ### Balance -/

theorem walkClosed_balanced : WalkClosed Balanced where
  nil := .nil
  append := .append
  comment c := by
    have hc (s : ScopeKind) : Kind.comment ≠ s.kind := by cases s <;> simp [ScopeKind.kind]
    exact .other hc (.other hc .nil)
  node {kind k inner} n _ hi := by
    rcases ScopeKind.exists_kind_or k with ⟨s, rfl⟩ | hk
    · exact .scope s (some n) hi .nil
    · exact .other hk (hi.append (.other hk .nil))

/-! ### Brackets -/

mutual
/-- Each documented node is entered, the ones inside of it follow in order, and it is left. -/
def brackets : Tree → List (Event Tree)
  | .node kind children parts =>
    match eventKind? kind with
    | none => bracketsIn children
    | some k =>
      .enter k (.node kind children parts) ::
        (bracketsIn children ++ [.leave k (some (.node kind children parts))])
  | _ => []
def bracketsIn : List Tree → List (Event Tree)
  | [] => []
  | t :: ts => t.brackets ++ bracketsIn ts
end

mutual
/-- The documented nodes of a tree, each before those inside of it. -/
def preorder : Tree → List (Kind × Tree)
  | .node kind children parts =>
    ((eventKind? kind).map fun k => (k, .node kind children parts)).toList ++ preorderIn children
  | _ => []
def preorderIn : List Tree → List (Kind × Tree)
  | [] => []
  | t :: ts => t.preorder ++ preorderIn ts
end

mutual
/-- The documented nodes of a tree, each after those inside of it. -/
def postorder : Tree → List (Kind × Tree)
  | .node kind children parts =>
    postorderIn children ++ ((eventKind? kind).map fun k => (k, .node kind children parts)).toList
  | _ => []
def postorderIn : List Tree → List (Kind × Tree)
  | [] => []
  | t :: ts => t.postorder ++ postorderIn ts
end

def notComment (e : Event Tree) : Bool := e.kind != .comment

theorem filter_commentEvents (told : Bool) (trivia : List Trivia) :
    (if told then [] else commentEvents trivia).filter notComment = [] := by
  cases told with
  | true => rfl
  | false =>
    simp only [Bool.false_eq_true, if_false, commentEvents, List.filter_flatMap]
    exact List.flatMap_eq_nil_iff.mpr fun _ _ => rfl

mutual
theorem filter_walk : ∀ (t : Tree) (told : Bool), (walk told t).1.filter notComment = t.brackets
  | .node kind children parts, told => by
    cases h : eventKind? kind with
    | none =>
      rw [walk_node_of_none h]
      simp only [brackets, h]
      exact filter_walkAll children told
    | some k =>
      have hk : (k != .comment) = true := by
        simpa using fun hc : k = .comment => eventKind?_ne_comment kind (hc ▸ h)
      rw [walk_node_of_some h]
      simp [brackets, h, filter_commentEvents, filter_walkAll children true, notComment,
        Event.enter, Event.leave, hk]
  | .absent, _ | .comment _, _ | .token _ _ _, _ | .seq _, _ => by simp [walk, brackets]
theorem filter_walkAll : ∀ (ts : List Tree) (told : Bool),
    (walkAll told ts).1.filter notComment = bracketsIn ts
  | [], _ => by simp [walkAll, bracketsIn]
  | t :: ts, told => by
    by_cases ht : t.isToken = true
    · obtain ⟨kind, text, trivia, rfl⟩ := eq_token_of_isToken ht
      rw [walkAll_token, List.filter_append, filter_commentEvents, filter_walkAll ts false]
      simp [bracketsIn, brackets]
    · rw [walkAll_cons (by simpa using ht), List.filter_append, filter_walk t told,
        filter_walkAll ts, bracketsIn]
end

mutual
theorem filter_enter_brackets : ∀ t : Tree,
    t.brackets.filter (·.phase == .enter) = t.preorder.map fun x => .enter x.1 x.2
  | .node kind children parts => by
    cases h : eventKind? kind with
    | none => simpa [brackets, preorder, h] using filter_enter_bracketsIn children
    | some k =>
      simp [brackets, preorder, h, filter_enter_bracketsIn children, Event.enter, Event.leave]
  | .absent | .comment _ | .token _ _ _ | .seq _ => by simp [brackets, preorder]
theorem filter_enter_bracketsIn : ∀ ts : List Tree,
    (bracketsIn ts).filter (·.phase == .enter) = (preorderIn ts).map fun x => .enter x.1 x.2
  | [] => by simp [bracketsIn, preorderIn]
  | t :: ts => by
    simp [bracketsIn, preorderIn, filter_enter_brackets t, filter_enter_bracketsIn ts]
end

mutual
theorem filter_leave_brackets : ∀ t : Tree,
    t.brackets.filter (·.phase == .leave) = t.postorder.map fun x => .leave x.1 (some x.2)
  | .node kind children parts => by
    cases h : eventKind? kind with
    | none => simpa [brackets, postorder, h] using filter_leave_bracketsIn children
    | some k =>
      simp [brackets, postorder, h, filter_leave_bracketsIn children, Event.enter, Event.leave]
  | .absent | .comment _ | .token _ _ _ | .seq _ => by simp [brackets, postorder]
theorem filter_leave_bracketsIn : ∀ ts : List Tree,
    (bracketsIn ts).filter (·.phase == .leave) = (postorderIn ts).map fun x => .leave x.1 (some x.2)
  | [] => by simp [bracketsIn, postorderIn]
  | t :: ts => by
    simp [bracketsIn, postorderIn, filter_leave_brackets t, filter_leave_bracketsIn ts]
end

/-! ### The assembler on a tree -/

/-- The events of a tree without its comments are its documented nodes in brackets, comments are
entered and left at once, and if the tree can be assembled, every end of a module, a function or a
task closes the scope that the same node opened, so that none is open in the end. -/
theorem events_nested (t : Tree) (name : String) (fileName : Option String) (strict : Bool) :
    t.events.filter (·.kind != .comment) = t.brackets ∧
    t.brackets.filter (·.phase == .enter) = t.preorder.map (fun x => .enter x.1 x.2) ∧
    t.brackets.filter (·.phase == .leave) = t.postorder.map (fun x => .leave x.1 (some x.2)) ∧
    CommentsPaired t.events ∧
    ((assemble (Generator.sourceOfTree name t) fileName strict).fault = none →
      (∀ (k : ScopeKind) (n : Option Tree) (left right : List (Event Tree)),
        t.events = left ++ ⟨.leave, k.kind, n⟩ :: right →
          ∃ pre inner, left = pre ++ ⟨.enter, k.kind, n⟩ :: inner ∧ Balanced inner ∧
            Encloses name (.initial (fileName.getD name) strict) pre k n inner) ∧
      ∃ s, feedAll name (.initial (fileName.getD name) strict) t.events = ⟨s, none⟩ ∧
        s.scopes = [] ∧
        assemble (Generator.sourceOfTree name t) fileName strict = ⟨s.finish, none⟩) := by
  have hb : Balanced t.events := walkClosed_balanced.walk t false
  refine ⟨filter_walk t false, filter_enter_brackets t, filter_leave_brackets t,
    walkClosed_commentsPaired.walk t false, fun h => ?_⟩
  obtain ⟨s, hs, -, hr⟩ := run_eq_of_fault h
  change feedAll name (.initial (fileName.getD name) strict) t.events = ⟨s, none⟩ at hs
  refine ⟨?_, s, hs, ?_, hr⟩
  · intro k n left right he
    obtain ⟨pre, inner, rfl, hi⟩ := hb.exists_enter he
    rw [he, List.append_assoc, List.cons_append] at hs
    exact ⟨pre, inner, rfl, hi, hi.encloses hs⟩
  · have hh : s.headings = [] := (hb.runsAbove hs).2
    exact List.map_eq_nil_iff.mp hh

/-- A module and its parameter list with the same first token, and a function inside. -/
def sampleTree : Tree :=
  .node "CompilationUnit"
    [.node "ModuleDeclaration"
      [.absent,
       .node "ParameterPortList"
        [.token "Identifier" "m" [⟨"LineComment", "//* Adds."⟩, ⟨"Whitespace", " "⟩]] [],
       .node "FunctionDeclaration"
        [.token "Identifier" "f" [], .token "Semicolon" ";" [⟨"BlockComment", "/** Ends. */"⟩]] []]
      []] []

theorem events_nested_sampleTree :
    (assemble (Generator.sourceOfTree "a.sv" sampleTree) none true).fault = none ∧
      ∃ s, feedAll "a.sv" (.initial "a.sv" true) sampleTree.events = ⟨s, none⟩ ∧ s.scopes = [] := by
  have hf : (assemble (Generator.sourceOfTree "a.sv" sampleTree) none true).fault = none := by
    decide
  obtain ⟨s, hs, hn, -⟩ := ((events_nested sampleTree "a.sv" none true).2.2.2.2 hf).2
  exact ⟨hf, s, hs, hn⟩

end DesignDoc.Tree
