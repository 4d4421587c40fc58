import DesignDoc.Proofs.Tree.Brackets

/-! Where the comments of a syntax tree are told. A walk tells the comments of a token before the
documented nodes that begin with this token, and passes over them when it comes to the token. The
one flag it carries is enough for that: comments are never told twice or out of order, and if every
documented node has a token, none is lost and each stands right before the nodes it belongs to. -/

namespace DesignDoc

structure Token where
  kind : String
  text : String
  trivia : List Trivia
  deriving DecidableEq, Repr

def Token.comments (x : Token) : List Trivia := x.trivia.filter Trivia.isComment

namespace Tree

open DesignDoc.Event

/-! ### Tokens -/

mutual
/-- The tokens of a tree, depth first. -/
def tokens : Tree → List Token
  | .token kind text trivia => [⟨kind, text, trivia⟩]
  | .node _ children _ => tokensIn children
  | _ => []
def tokensIn : List Tree → List Token
  | [] => []
  | t :: ts => t.tokens ++ tokensIn ts
end

mutual
theorem firstTrivia_eq : ∀ t : Tree, t.firstTrivia = t.tokens.head?.map (·.trivia)
  | .node _ children _ => by
    simp only [firstTrivia, tokens]
    exact firstTriviaIn_eq children
  | .token _ _ _ => by simp [firstTrivia, tokens]
  | .absent | .comment _ | .seq _ => by simp [firstTrivia, tokens]
theorem firstTriviaIn_eq : ∀ ts : List Tree,
    firstTriviaIn ts = (tokensIn ts).head?.map (·.trivia)
  | [] => by simp [firstTriviaIn, tokensIn]
  | t :: ts => by
    simp only [firstTriviaIn, tokensIn, firstTrivia_eq t, firstTriviaIn_eq ts, List.head?_append]
    cases t.tokens.head? <;> rfl
end

/-! ### Comments that are told -/

def isCommentEnter (e : Event Tree) : Bool := e.phase == .enter && e.kind == .comment

def commentEnter (c : Trivia) : Event Tree := .enter .comment (.comment c.text)

/-- The comments of a list of tokens, as events that enter them. -/
def commentEnters (xs : List Token) : List (Event Tree) :=
  (xs.flatMap Token.comments).map commentEnter

@[simp] theorem commentEnters_nil : commentEnters [] = [] := rfl

@[simp] theorem commentEnters_cons (x : Token) (xs : List Token) :
    commentEnters (x :: xs) = x.comments.map commentEnter ++ commentEnters xs := by
  simp [commentEnters]

@[simp] theorem commentEnters_append (xs ys : List Token) :
    commentEnters (xs ++ ys) = commentEnters xs ++ commentEnters ys := by
  simp [commentEnters]

theorem filter_isCommentEnter_commentEvents (trivia : List Trivia) :
    (commentEvents trivia).filter isCommentEnter =
      (trivia.filter Trivia.isComment).map commentEnter := by
  unfold commentEvents
  induction trivia.filter Trivia.isComment with
  | nil => rfl
  | cons c cs ih =>
    rw [List.flatMap_cons, List.filter_append, ih]
    rfl

/-- The tokens whose comments are still to be told. -/
def untold (told : Bool) (xs : List Token) : List Token := if told then xs.tail else xs

theorem commentEnters_untold_sublist (told : Bool) (xs : List Token) :
    (commentEnters (untold told xs)).Sublist (commentEnters xs) := by
  cases told with
  | true =>
    cases xs with
    | nil => exact List.Sublist.refl _
    | cons x xs =>
      rw [commentEnters_cons]
      exact List.sublist_append_right _ _
  | false => exact List.Sublist.refl _

/-- As long as no token is met, what is told stays told. -/
theorem commentEnters_untold_append {told later : Bool} {xs ys : List Token}
    (h : told = true → xs = [] → later = true) :
    (commentEnters (untold told xs) ++ commentEnters (untold later ys)).Sublist
      (commentEnters (untold told (xs ++ ys))) := by
  cases xs with
  | nil =>
    cases told with
    | true =>
      rw [h rfl rfl]
      exact List.Sublist.refl _
    | false => exact commentEnters_untold_sublist later ys
  | cons x xs =>
    cases told with
    | true =>
      simpa [untold] using commentEnters_untold_sublist later ys
    | false =>
      simpa [untold] using commentEnters_untold_sublist later ys

mutual
theorem told_walk : ∀ (t : Tree), t.isToken = false → t.tokens = [] → (walk true t).2 = true
  | .node kind children parts, _, h => by
    have hc := told_walkAll children h
    cases hk : eventKind? kind with
    | none => rw [walk_node_of_none hk, hc]
    | some k => rw [walk_node_of_some hk, hc]
  | .absent, _, _ | .comment _, _, _ | .seq _, _, _ => by simp only [walk]
theorem told_walkAll : ∀ (ts : List Tree), tokensIn ts = [] → (walkAll true ts).2 = true
  | [], _ => by simp only [walkAll]
  | t :: ts, h => by
    obtain ⟨ht, hts⟩ := List.append_eq_nil_iff.mp h
    have hn : t.isToken = false := by
      cases t with
      | token => simp [tokens] at ht
      | _ => rfl
    rw [walkAll_cons hn, told_walk t hn ht, told_walkAll ts hts]
end

mutual
theorem walk_sublist : ∀ (t : Tree) (told : Bool), t.isToken = false →
    ((walk told t).1.filter isCommentEnter).Sublist (commentEnters (untold told t.tokens))
  | .node kind children parts, told, _ => by
    cases h : eventKind? kind with
    | none =>
      rw [walk_node_of_none h]
      exact walkAll_sublist children told
    | some k =>
      have hk : k ≠ .comment := fun hc => eventKind?_ne_comment kind (hc ▸ h)
      have hc := walkAll_sublist children true
      rw [walk_node_of_some h, firstTriviaIn_eq]
      simp only [tokens]
      cases told with
      | true => simpa [isCommentEnter, Event.enter, Event.leave, hk] using hc
      | false =>
        -- The first token's comments come here, and the walk inside passes over them.
        cases hx : tokensIn children with
        | nil => simpa [isCommentEnter, Event.enter, Event.leave, hk, untold, hx,
            filter_isCommentEnter_commentEvents] using hc
        | cons x xs => simpa [isCommentEnter, Event.enter, Event.leave, hk, untold, hx,
            filter_isCommentEnter_commentEvents, Token.comments] using hc
  | .absent, _, _ | .comment _, _, _ | .seq _, _, _ => by simp [walk]
theorem walkAll_sublist : ∀ (ts : List Tree) (told : Bool),
    ((walkAll told ts).1.filter isCommentEnter).Sublist (commentEnters (untold told (tokensIn ts)))
  | [], _ => by simp [walkAll]
  | t :: ts, told => by
    by_cases ht : t.isToken = true
    · obtain ⟨kind, text, trivia, rfl⟩ := eq_token_of_isToken ht
      have hc := walkAll_sublist ts false
      rw [walkAll_token]
      cases told with
      | true => simpa [tokensIn, tokens, untold] using hc
      | false =>
        simpa [tokensIn, tokens, untold, filter_isCommentEnter_commentEvents, Token.comments]
          using hc
    · have hn : t.isToken = false := by simpa using ht
      rw [walkAll_cons hn, List.filter_append]
      refine ((walk_sublist t told hn).append (walkAll_sublist ts _)).trans ?_
      apply commentEnters_untold_append
      rintro rfl hx
      exact told_walk t hn hx
end

/-! ### The stops of a walk -/

/-- A token, with the documented nodes that begin with it, outermost first, and those that end with
it, innermost first. -/
structure Stop where
  token : Token
  starts : List (Kind × Tree) := []
  ends : List (Kind × Tree) := []

def enterOf (q : Kind × Tree) : Event Tree := .enter q.1 q.2

def leaveOf (q : Kind × Tree) : Event Tree := .leave q.1 (some q.2)

/-- What happens at a stop, but for the comments. -/
def Stop.moves (x : Stop) : List (Event Tree) := x.starts.map enterOf ++ x.ends.map leaveOf

def Stop.events (x : Stop) : List (Event Tree) := commentEvents x.token.trivia ++ x.moves

def addStart (q : Kind × Tree) : List Stop → List Stop
  | [] => []
  | x :: xs => { x with starts := q :: x.starts } :: xs

def addEnd (q : Kind × Tree) : List Stop → List Stop
  | [] => []
  | [x] => [{ x with ends := x.ends ++ [q] }]
  | x :: y :: xs => x :: addEnd q (y :: xs)

mutual
/-- The stops of a tree, one for each token. A documented node begins at the first of its stops and
ends at the last. -/
def stops : Tree → List Stop
  | .token kind text trivia => [{ token := ⟨kind, text, trivia⟩ }]
  | .node kind children parts =>
    match eventKind? kind with
    | none => stopsIn children
    | some k =>
      addEnd (k, .node kind children parts) (addStart (k, .node kind children parts)
        (stopsIn children))
  | _ => []
def stopsIn : List Tree → List Stop
  | [] => []
  | t :: ts => t.stops ++ stopsIn ts
end

@[simp] theorem map_token_addStart (q : Kind × Tree) (xs : List Stop) :
    (addStart q xs).map Stop.token = xs.map Stop.token := by
  cases xs <;> rfl

@[simp] theorem map_token_addEnd (q : Kind × Tree) (xs : List Stop) :
    (addEnd q xs).map Stop.token = xs.map Stop.token := by
  fun_induction addEnd q xs with
  | case1 => rfl
  | case2 x => rfl
  | case3 x y xs ih => rw [List.map_cons, ih, ← List.map_cons]

mutual
theorem map_token_stops : ∀ t : Tree, t.stops.map Stop.token = t.tokens
  | .node kind children parts => by
    have hc := map_token_stopsIn children
    cases h : eventKind? kind with
    | none => simpa only [stops, tokens, h] using hc
    | some k => simpa only [stops, tokens, h, map_token_addEnd, map_token_addStart] using hc
  | .token _ _ _ => by simp [stops, tokens]
  | .absent | .comment _ | .seq _ => by simp [stops, tokens]
theorem map_token_stopsIn : ∀ ts : List Tree, (stopsIn ts).map Stop.token = tokensIn ts
  | [] => by simp [stopsIn, tokensIn]
  | t :: ts => by
    simp [stopsIn, tokensIn, map_token_stops t, map_token_stopsIn ts]
end

theorem exists_stopsIn_cons {ts : List Tree} (h : tokensIn ts ≠ []) :
    ∃ x xs, stopsIn ts = x :: xs := by
  apply List.exists_cons_of_ne_nil
  intro he
  apply h
  rw [← map_token_stopsIn, he]
  rfl

/-- The events of stops, with the comments of the first told already or not. -/
def eventsFrom (told : Bool) : List Stop → List (Event Tree)
  | [] => []
  | x :: xs => (if told then [] else commentEvents x.token.trivia) ++ x.moves
      ++ xs.flatMap Stop.events

@[simp] theorem eventsFrom_nil (told : Bool) : eventsFrom told [] = [] := rfl

theorem eventsFrom_cons (told : Bool) (x : Stop) (xs : List Stop) :
    eventsFrom told (x :: xs) =
      (if told then [] else commentEvents x.token.trivia) ++ x.moves ++ xs.flatMap Stop.events :=
  rfl

theorem eventsFrom_false (xs : List Stop) : eventsFrom false xs = xs.flatMap Stop.events := by
  cases xs <;> simp [eventsFrom_cons, Stop.events]

theorem eventsFrom_append (told : Bool) (xs ys : List Stop) :
    eventsFrom told (xs ++ ys) = eventsFrom told xs ++ eventsFrom (told && xs.isEmpty) ys := by
  cases xs with
  | nil => simp
  | cons x xs => simp [eventsFrom_cons, eventsFrom_false]

theorem eventsFrom_addStart (told : Bool) (q : Kind × Tree) (x : Stop) (xs : List Stop) :
    eventsFrom told (addStart q (x :: xs)) =
      (if told then [] else commentEvents x.token.trivia)
        ++ enterOf q :: eventsFrom true (x :: xs) := by
  simp [addStart, eventsFrom_cons, Stop.moves]

theorem eventsFrom_addEnd (told : Bool) (q : Kind × Tree) {xs : List Stop} (h : xs ≠ []) :
    eventsFrom told (addEnd q xs) = eventsFrom told xs ++ [leaveOf q] := by
  fun_induction addEnd q xs generalizing told with
  | case1 => exact absurd rfl h
  | case2 x => simp [eventsFrom_cons, Stop.moves]
  | case3 x y xs ih =>
    have hc := ih false (by simp)
    rw [eventsFrom_false, eventsFrom_false] at hc
    simp [eventsFrom_cons, hc]

/-! ### Grounded trees -/

mutual
/-- Every documented node has a token. -/
def Grounded : Tree → Prop
  | .node kind children _ =>
    ((eventKind? kind).isSome = true → tokensIn children ≠ []) ∧ GroundedIn children
  | _ => True
def GroundedIn : List Tree → Prop
  | [] => True
  | t :: ts => t.Grounded ∧ GroundedIn ts
end

mutual
/-- A walk over a grounded tree goes from stop to stop. -/
theorem walk_eq : ∀ (t : Tree) (told : Bool), t.isToken = false → t.Grounded →
    walk told t = (eventsFrom told t.stops, told && t.stops.isEmpty)
  | .node kind children parts, told, _, h => by
    obtain ⟨hg, hc⟩ := h
    cases hk : eventKind? kind with
    | none =>
      rw [walk_node_of_none hk, walkAll_eq children told hc]
      simp only [stops, hk]
    | some k =>
      obtain ⟨x, xs, hs⟩ := exists_stopsIn_cons (hg (by rw [hk]; rfl))
      have hf : firstTriviaIn children = some x.token.trivia := by
        rw [firstTriviaIn_eq, ← map_token_stopsIn, hs]
        rfl
      rw [walk_node_of_some hk, walkAll_eq children true hc]
      have hq : (addStart (k, .node kind children parts) (x :: xs)) ≠ [] := by simp [addStart]
      have he : (addEnd (k, .node kind children parts)
          (addStart (k, .node kind children parts) (x :: xs))).isEmpty = false := by
        rw [← List.isEmpty_map (f := Stop.token), map_token_addEnd, map_token_addStart]
        rfl
      simp only [stops, hk, hs, hf, he, eventsFrom_addEnd _ _ hq, eventsFrom_addStart]
      simp [enterOf, leaveOf]
  | .absent, told, _, _ | .comment _, told, _, _ | .seq _, told, _, _ => by simp [walk, stops]
theorem walkAll_eq : ∀ (ts : List Tree) (told : Bool), GroundedIn ts →
    walkAll told ts = (eventsFrom told (stopsIn ts), told && (stopsIn ts).isEmpty)
  | [], told, _ => by simp [walkAll, stopsIn]
  | t :: ts, told, h => by
    obtain ⟨hg, hgs⟩ := h
    by_cases ht : t.isToken = true
    · obtain ⟨kind, text, trivia, rfl⟩ := eq_token_of_isToken ht
      rw [walkAll_token, walkAll_eq ts false hgs]
      simp [stopsIn, stops, eventsFrom_cons, Stop.moves, eventsFrom_false]
    · have hn : t.isToken = false := by simpa using ht
      rw [walkAll_cons hn, walk_eq t told hn hg, walkAll_eq ts _ hgs, stopsIn, eventsFrom_append]
      have he : (t.stops ++ stopsIn ts).isEmpty = (t.stops.isEmpty && (stopsIn ts).isEmpty) := by
        cases t.stops <;> rfl
      simp [Bool.and_assoc, he]
end

/-! ### Where nodes begin -/

/-- The tokens of a tree are a given token and the next ones after it. -/
def StartsAt (d : Tree) (first : Token) (later : List Token) : Prop :=
  ∃ rest, d.tokens = first :: rest ∧ rest <+: later

/-- Nodes begin at the stop of their first token, and no node is a comment. -/
def Anchored : List Stop → Prop
  | [] => True
  | x :: xs =>
    (∀ q ∈ x.starts, q.1 ≠ .comment ∧ StartsAt q.2 x.token (xs.map Stop.token)) ∧
      (∀ q ∈ x.ends, q.1 ≠ .comment) ∧ Anchored xs

theorem Anchored.append {xs ys : List Stop} (hx : Anchored xs) (hy : Anchored ys) :
    Anchored (xs ++ ys) := by
  induction xs with
  | nil => exact hy
  | cons x xs ih =>
    obtain ⟨hs, he, hx⟩ := hx
    refine ⟨fun q hq => ?_, he, ih hx⟩
    obtain ⟨hk, rest, hr, hp⟩ := hs q hq
    have hl : xs.map Stop.token <+: (xs ++ ys).map Stop.token := by
      rw [List.map_append]
      exact List.prefix_append _ _
    exact ⟨hk, rest, hr, hp.trans hl⟩

theorem Anchored.of_append {xs ys : List Stop} (h : Anchored (xs ++ ys)) : Anchored ys := by
  induction xs with
  | nil => exact h
  | cons x xs ih => exact ih h.2.2

theorem Anchored.addStart {q : Kind × Tree} {xs : List Stop} (h : Anchored xs)
    (hk : q.1 ≠ .comment) (hq : q.2.tokens = xs.map Stop.token) : Anchored (addStart q xs) := by
  cases xs with
  | nil => trivial
  | cons x xs =>
    obtain ⟨hs, he, hx⟩ := h
    refine ⟨fun p hp => ?_, he, hx⟩
    rcases List.mem_cons.mp hp with rfl | hp
    · exact ⟨hk, xs.map Stop.token, hq, List.prefix_rfl⟩
    · exact hs p hp

theorem Anchored.addEnd {q : Kind × Tree} {xs : List Stop} (h : Anchored xs)
    (hk : q.1 ≠ .comment) : Anchored (addEnd q xs) := by
  fun_induction Tree.addEnd q xs with
  | case1 => trivial
  | case2 x =>
    obtain ⟨hs, he, hx⟩ := h
    refine ⟨hs, fun p hp => ?_, hx⟩
    rcases List.mem_append.mp hp with hp | hp
    · exact he p hp
    · obtain rfl := List.mem_singleton.mp hp
      exact hk
  | case3 x y xs ih =>
    obtain ⟨hs, he, hx⟩ := h
    refine ⟨?_, he, ih hx⟩
    rw [map_token_addEnd]
    exact hs

mutual
theorem anchored_stops : ∀ t : Tree, Anchored t.stops
  | .node kind children parts => by
    have hc := anchored_stopsIn children
    cases h : eventKind? kind with
    | none => simpa only [stops, h] using hc
    | some k =>
      have hk : k ≠ .comment := fun hc => eventKind?_ne_comment kind (hc ▸ h)
      simp only [stops, h]
      apply Anchored.addEnd _ hk
      apply hc.addStart hk
      rw [map_token_stopsIn, tokens]
  | .token _ _ _ => by simp [stops, Anchored]
  | .absent | .comment _ | .seq _ => by simp [stops, Anchored]
theorem anchored_stopsIn : ∀ ts : List Tree, Anchored (stopsIn ts)
  | [] => by simp [stopsIn, Anchored]
  | t :: ts => by
    rw [stopsIn]
    exact (anchored_stops t).append (anchored_stopsIn ts)
end

/-! ### Reading the stops -/

/-- At a stop, no node is a comment. -/
def Stop.Proper (x : Stop) : Prop :=
  (∀ q ∈ x.starts, q.1 ≠ .comment) ∧ ∀ q ∈ x.ends, q.1 ≠ .comment

theorem Anchored.proper {xs : List Stop} (h : Anchored xs) : ∀ x ∈ xs, x.Proper := by
  induction xs with
  | nil => simp
  | cons y xs ih =>
    obtain ⟨hs, he, hx⟩ := h
    intro x hmem
    rcases List.mem_cons.mp hmem with rfl | hmem
    · exact ⟨fun q hq => (hs q hq).1, he⟩
    · exact ih hx x hmem

/-- An event that enters a documented node. -/
def isNodeEnter (e : Event Tree) : Bool := e.phase == .enter && e.kind != .comment

theorem filter_isCommentEnter_stops {xs : List Stop} (h : ∀ x ∈ xs, x.Proper) :
    (xs.flatMap Stop.events).filter isCommentEnter = commentEnters (xs.map Stop.token) := by
  induction xs with
  | nil => rfl
  | cons x xs ih =>
    have hx : ∀ y ∈ xs, y.Proper := fun y hy => h y (List.mem_cons_of_mem _ hy)
    obtain ⟨hs, -⟩ := h x List.mem_cons_self
    have hstarts : (x.starts.map enterOf).filter isCommentEnter = [] := by
      simp only [List.filter_eq_nil_iff, List.mem_map]
      rintro _ ⟨q, hq, rfl⟩
      simp [isCommentEnter, enterOf, Event.enter, hs q hq]
    have hends : (x.ends.map leaveOf).filter isCommentEnter = [] := by
      simp only [List.filter_eq_nil_iff, List.mem_map]
      rintro _ ⟨q, hq, rfl⟩
      simp [isCommentEnter, leaveOf, Event.leave]
    simp [Stop.events, Stop.moves, ih hx, hstarts, hends, filter_isCommentEnter_commentEvents,
      Token.comments]

theorem filter_isNodeEnter_stops {xs : List Stop} (h : ∀ x ∈ xs, x.Proper) :
    (xs.flatMap Stop.events).filter isNodeEnter = (xs.flatMap Stop.starts).map enterOf := by
  induction xs with
  | nil => rfl
  | cons x xs ih =>
    have hx : ∀ y ∈ xs, y.Proper := fun y hy => h y (List.mem_cons_of_mem _ hy)
    obtain ⟨hs, -⟩ := h x List.mem_cons_self
    have hcomments : (commentEvents x.token.trivia).filter isNodeEnter = [] := by
      simp only [commentEvents, List.filter_flatMap]
      exact List.flatMap_eq_nil_iff.mpr fun _ _ => rfl
    have hstarts : (x.starts.map enterOf).filter isNodeEnter = x.starts.map enterOf := by
      simp only [List.filter_eq_self, List.mem_map]
      rintro _ ⟨q, hq, rfl⟩
      simp [isNodeEnter, enterOf, Event.enter, hs q hq]
    have hends : (x.ends.map leaveOf).filter isNodeEnter = [] := by
      simp only [List.filter_eq_nil_iff, List.mem_map]
      rintro _ ⟨q, hq, rfl⟩
      simp [isNodeEnter, leaveOf, Event.leave]
    simp [Stop.events, Stop.moves, ih hx, hcomments, hstarts, hends]

theorem flatMap_starts_addEnd (q : Kind × Tree) (xs : List Stop) :
    (addEnd q xs).flatMap Stop.starts = xs.flatMap Stop.starts := by
  fun_induction addEnd q xs with
  | case1 => rfl
  | case2 x => rfl
  | case3 x y xs ih => rw [List.flatMap_cons, ih, ← List.flatMap_cons]

mutual
/-- In a grounded tree every documented node begins at a stop. -/
theorem flatMap_starts_stops : ∀ t : Tree, t.Grounded → t.stops.flatMap Stop.starts = t.preorder
  | .node kind children parts, h => by
    obtain ⟨hg, hc⟩ := h
    have ih := flatMap_starts_stopsIn children hc
    cases hk : eventKind? kind with
    | none => simpa [stops, preorder, hk] using ih
    | some k =>
      obtain ⟨x, xs, hs⟩ := exists_stopsIn_cons (hg (by rw [hk]; rfl))
      rw [hs] at ih
      simp only [stops, preorder, hk, hs, flatMap_starts_addEnd]
      simp [addStart, ← ih]
  | .token _ _ _, _ => by simp [stops, preorder]
  | .absent, _ | .comment _, _ | .seq _, _ => by simp [stops, preorder]
theorem flatMap_starts_stopsIn : ∀ ts : List Tree, GroundedIn ts →
    (stopsIn ts).flatMap Stop.starts = preorderIn ts
  | [], _ => by simp [stopsIn, preorderIn]
  | t :: ts, h => by
    obtain ⟨hg, hgs⟩ := h
    rw [stopsIn, preorderIn, List.flatMap_append, flatMap_starts_stops t hg,
      flatMap_starts_stopsIn ts hgs]
end

/-- A place in a list of lists is a place in one of them. -/
theorem exists_split_flatMap {α β : Type} {f : α → List β} {l : List α} {a b : List β} {x : β}
    (h : l.flatMap f = a ++ x :: b) :
    ∃ l₁ y l₂ u v, l = l₁ ++ y :: l₂ ∧ f y = u ++ x :: v ∧ a = l₁.flatMap f ++ u := by
  induction l generalizing a with
  | nil => simp at h
  | cons y l ih =>
    rw [List.flatMap_cons] at h
    rcases List.append_eq_append_iff.mp h with ⟨c, rfl, hc⟩ | ⟨c, hy, hc⟩
    · obtain ⟨l₁, z, l₂, u, v, rfl, hz, rfl⟩ := ih hc
      exact ⟨y :: l₁, z, l₂, u, v, rfl, hz, by simp⟩
    · cases c with
      | nil =>
        obtain ⟨l₁, z, l₂, u, v, rfl, hz, he⟩ := ih (a := []) hc.symm
        exact ⟨y :: l₁, z, l₂, u, v, rfl, hz, by simp [← he, hy]⟩
      | cons w c =>
        obtain ⟨rfl, -⟩ := List.cons.inj hc
        exact ⟨[], y, l, a, c, rfl, hy, rfl⟩

/-! ### Main statement -/

/-- Comments are told at most once and in the order of the source. If every documented node has a
token, all are told: those of the first token of a documented node before the node is entered, with
nothing in between but the entries of nodes that begin with the same token. -/
theorem comments_hoisted {t : Tree} (ht : t.isToken = false) :
    (t.events.filter isCommentEnter).Sublist (commentEnters t.tokens) ∧
    (t.Grounded →
      t.events.filter isCommentEnter = commentEnters t.tokens ∧
      ∀ (k : Kind) (d : Tree) (outer inner : List (Kind × Tree)),
        t.preorder = outer ++ (k, d) :: inner →
        ∃ earlier first later earlierNodes chain before after,
          t.tokens = earlier ++ first :: later ∧ StartsAt d first later ∧
          t.events =
            before ++ commentEvents first.trivia ++ chain.map enterOf ++ .enter k d :: after ∧
          before.filter isCommentEnter = commentEnters earlier ∧
          outer = earlierNodes ++ chain ∧
          before.filter isNodeEnter = earlierNodes.map enterOf ∧
          ∀ q ∈ chain, StartsAt q.2 first later) := by
  refine ⟨walk_sublist t false ht, fun hg => ?_⟩
  have he : t.events = t.stops.flatMap Stop.events := by
    rw [events, walk_eq t false ht hg, eventsFrom_false]
  have ha := anchored_stops t
  refine ⟨by rw [he, filter_isCommentEnter_stops ha.proper, map_token_stops], ?_⟩
  intro k d outer inner hp
  rw [← flatMap_starts_stops t hg] at hp
  obtain ⟨l₁, y, l₂, u, v, hl, hy, rfl⟩ := exists_split_flatMap hp
  rw [hl] at ha
  have hproper : ∀ x ∈ l₁, x.Proper := fun x hx => ha.proper x (by simp [hx])
  have hstarts : ∀ q ∈ y.starts, StartsAt q.2 y.token (l₂.map Stop.token) :=
    fun q hq => (ha.of_append.1 q hq).2
  refine ⟨l₁.map Stop.token, y.token, l₂.map Stop.token, l₁.flatMap Stop.starts, u,
    l₁.flatMap Stop.events, v.map enterOf ++ y.ends.map leaveOf ++ l₂.flatMap Stop.events,
    ?_, ?_, ?_, filter_isCommentEnter_stops hproper, rfl, filter_isNodeEnter_stops hproper, ?_⟩
  · rw [← map_token_stops, hl, List.map_append, List.map_cons]
  · exact hstarts (k, d) (by simp [hy])
  · simp [he, hl, Stop.events, Stop.moves, hy, enterOf]
  · exact fun q hq => hstarts q (by simp [hy, hq])

theorem comments_hoisted_sampleTree :
    sampleTree.isToken = false ∧ sampleTree.Grounded ∧
      sampleTree.tokens.flatMap Token.comments =
        [⟨"LineComment", "//* Adds."⟩, ⟨"BlockComment", "/** Ends. */"⟩] ∧
      sampleTree.events.filter isCommentEnter = commentEnters sampleTree.tokens := by
  have hg : sampleTree.Grounded := by
    simp [sampleTree, Grounded, GroundedIn, tokensIn, tokens]
  exact ⟨rfl, hg, by decide, ((comments_hoisted rfl).2 hg).1⟩

end Tree

end DesignDoc
