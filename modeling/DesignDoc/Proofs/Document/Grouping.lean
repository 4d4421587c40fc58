import DesignDoc.Document.StateMachine
import Mathlib.Data.List.Nodup
import Mathlib.Data.List.Induction
import Mathlib.Data.List.TakeWhile

/-! Machines as their items describe them. The items between a start and the next one are read one
after the other, and each of them may open states and overwrite transitions. What comes out can be
said without the order of these changes: the states are the names that the items mention, each once
and in the order of first mention; a state has the last text of each of its transitions and all its
documentation. Lists of items that begin with a start are grouped apart from what comes before. -/

namespace DesignDoc.Annotation

namespace Item

/-- Items that open a state machine. -/
def isMachineStart : Item → Bool
  | .simple .machine _ => true
  | _ => false

/-- Items that tell of a state or a transition of a machine. -/
def isStateItem : Item → Bool
  | .named .state _ _ | .transition _ _ _ => true
  | _ => false

/-- The states that an item mentions, the source of a transition before its target. -/
def stateNames : Item → List String
  | .named .state name _ => [name]
  | .transition source target _ => [source, target]
  | _ => []

/-- Whether an item documents the state of a name. -/
def documents (name : String) : Item → Bool
  | .named .state n _ => n = name
  | _ => false

/-- The target and the text of a transition from the state of a name. -/
def entry? (name : String) : Item → Option (String × String)
  | .transition source target text => if source = name then some (target, text) else none
  | _ => none

/-- An item documents a state, tells of a transition, or is not about states. -/
theorem state_cases (i : Item) :
    (∃ name text, i = .named .state name text) ∨
      (∃ source target text, i = .transition source target text) ∨ i.isStateItem = false := by
  cases i with
  | named tag name text =>
    cases tag with
    | state => exact .inl ⟨name, text, rfl⟩
    | _ => exact .inr (.inr rfl)
  | transition source target text => exact .inr (.inl ⟨source, target, text, rfl⟩)
  | _ => exact .inr (.inr rfl)

section Other

variable {i : Item} (h : i.isStateItem = false)

include h

theorem stateNames_eq_nil : i.stateNames = [] := by
  unfold stateNames
  split <;> first | rfl | cases h

theorem entry?_eq_none (name : String) : i.entry? name = none := by
  unfold entry?
  split <;> first | rfl | cases h

theorem documents_eq_false (name : String) : i.documents name = false := by
  unfold documents
  split <;> first | rfl | cases h

end Other

end Item

end DesignDoc.Annotation

namespace DesignDoc.Document

open DesignDoc.Annotation

/-! ### Tables -/

theorem eraseDups_concat (l : List String) (a : String) :
    (l ++ [a]).eraseDups = if a ∈ l then l.eraseDups else l.eraseDups ++ [a] := by
  rw [List.eraseDups_append]
  split
  · simp [List.removeAll, *]
  · simp [List.removeAll, List.eraseDups_cons, *]

theorem nodup_eraseDups (l : List String) : l.eraseDups.Nodup := by
  induction l using List.reverseRecOn with
  | nil => exact List.nodup_nil
  | append_singleton l a ih =>
    rw [eraseDups_concat]
    split
    · exact ih
    · rename_i ha
      exact ih.append (List.nodup_singleton a) (by simpa using ha)

/-- A key that is new comes last. -/
theorem map_fst_setEntry (key value : String) (es : List (String × String)) :
    (setEntry key value es).map Prod.fst =
      if key ∈ es.map Prod.fst then es.map Prod.fst else es.map Prod.fst ++ [key] := by
  induction es with
  | nil => rfl
  | cons e es ih =>
    rw [setEntry]
    by_cases he : e.1 = key
    · simp [he]
    · have hk : key ∈ (e :: es).map Prod.fst ↔ key ∈ es.map Prod.fst := by
        rw [List.map_cons, List.mem_cons, or_iff_right (Ne.symm he)]
      rw [if_neg he, List.map_cons, ih, if_congr hk rfl rfl]
      split <;> rfl

theorem lookup_cons_eq_ite (e : String × String) (es : List (String × String)) (k : String) :
    (e :: es).lookup k = if k = e.1 then some e.2 else es.lookup k := by
  rw [List.lookup_cons]
  by_cases h : k = e.1
  · simp [h]
  · simp [h, beq_eq_false_iff_ne.mpr h]

theorem lookup_setEntry (key value k : String) (es : List (String × String)) :
    (setEntry key value es).lookup k = if k = key then some value else es.lookup k := by
  induction es with
  | nil => simp [setEntry]
  | cons e es ih =>
    rw [setEntry]
    by_cases he : e.1 = key
    · subst he
      simp only [if_true, lookup_cons_eq_ite]
      split <;> rfl
    · simp only [if_neg he, lookup_cons_eq_ite, ih]
      by_cases hk : k = key
      · simp [hk, Ne.symm he]
      · simp [hk]

/-- The table that entries make when they are written one after the other. -/
def tableOf (entries : List (String × String)) : List (String × String) :=
  entries.foldl (fun table e => setEntry e.1 e.2 table) []

theorem tableOf_concat (es : List (String × String)) (e : String × String) :
    tableOf (es ++ [e]) = setEntry e.1 e.2 (tableOf es) := by
  simp [tableOf]

/-- The keys of a table stand in the order of their first entries. -/
theorem map_fst_tableOf (es : List (String × String)) :
    (tableOf es).map Prod.fst = (es.map Prod.fst).eraseDups := by
  induction es using List.reverseRecOn with
  | nil => rfl
  | append_singleton es e ih =>
    rw [tableOf_concat, map_fst_setEntry, ih, List.map_append, List.map_singleton,
      eraseDups_concat, if_congr List.mem_eraseDups rfl rfl]

/-- The last entry of a key counts. -/
theorem lookup_tableOf (es : List (String × String)) (k : String) :
    (tableOf es).lookup k = es.reverse.lookup k := by
  induction es using List.reverseRecOn with
  | nil => rfl
  | append_singleton es e ih =>
    rw [tableOf_concat, lookup_setEntry, ih, List.reverse_concat, lookup_cons_eq_ite]

/-! ### What the items of a group describe -/

/-- The names of states in items, as often as they are mentioned. -/
def mentioned (group : List Item) : List String := group.flatMap Item.stateNames

/-- The state of a name as items describe it. -/
def stateOf (group : List Item) (name : String) : State where
  name := name
  transitions := tableOf (group.filterMap (Item.entry? name))
  items := group.filter (Item.documents name)

def statesOf (group : List Item) : List State := (mentioned group).eraseDups.map (stateOf group)

theorem mentioned_concat (group : List Item) (i : Item) :
    mentioned (group ++ [i]) = mentioned group ++ i.stateNames := by
  simp [mentioned]

/-- Nothing is said of a state that is not mentioned. -/
theorem stateOf_of_notMem {group : List Item} {name : String} (h : name ∉ mentioned group) :
    stateOf group name = { name } := by
  have hi : ∀ i ∈ group, name ∉ i.stateNames := fun i hi hn => h (List.mem_flatMap.mpr ⟨i, hi, hn⟩)
  have he : group.filterMap (Item.entry? name) = [] := by
    rw [List.filterMap_eq_nil_iff]
    intro i hm
    have hn := hi i hm
    cases i with
    | transition source target text =>
      exact if_neg fun hs => hn (by simp [Item.stateNames, hs])
    | _ => rfl
  have hd : group.filter (Item.documents name) = [] := by
    rw [List.filter_eq_nil_iff]
    intro i hm
    have hn := hi i hm
    cases i with
    | named tag n text =>
      cases tag with
      | state => simpa [Item.documents, Item.stateNames, eq_comm] using hn
      | _ => simp [Item.documents]
    | _ => simp [Item.documents]
  rw [stateOf, he, hd]
  rfl

theorem stateOf_concat_document (group : List Item) (name text n : String) :
    stateOf (group ++ [.named .state name text]) n =
      if n = name then
        { stateOf group n with items := (stateOf group n).items ++ [.named .state name text] }
      else stateOf group n := by
  by_cases h : n = name
  · simp [h, stateOf, Item.documents, Item.entry?, List.filterMap_cons]
  · simp [h, Ne.symm h, stateOf, Item.documents, Item.entry?, List.filterMap_cons]

theorem stateOf_concat_transition (group : List Item) (source target text n : String) :
    stateOf (group ++ [.transition source target text]) n =
      if n = source then
        { stateOf group n with
          transitions := setEntry target text (stateOf group n).transitions }
      else stateOf group n := by
  by_cases h : n = source
  · simp [h, stateOf, Item.documents, Item.entry?, tableOf_concat]
  · simp [h, Ne.symm h, stateOf, Item.documents, Item.entry?]

theorem statesOf_concat_of_not_isStateItem (group : List Item) {i : Item}
    (h : i.isStateItem = false) : statesOf (group ++ [i]) = statesOf group := by
  have hstate : stateOf (group ++ [i]) = stateOf group := by
    funext n
    simp [stateOf, Item.entry?_eq_none h, Item.documents_eq_false h]
  rw [statesOf, statesOf, hstate, mentioned_concat, Item.stateNames_eq_nil h, List.append_nil]

namespace StateMachine

section Step

variable {m : StateMachine} {names : List String} {f : String → State}

/-- A state that is mentioned for the first time comes last. -/
theorem states_mention (hm : m.states = names.eraseDups.map f) (hf : ∀ n, (f n).name = n)
    (name : String) (hnew : name ∉ names → f name = { name }) :
    (m.mention name).states = (names ++ [name]).eraseDups.map f := by
  have hany : m.states.any (·.name = name) = decide (name ∈ names) := by
    rw [hm, Bool.eq_iff_iff]
    simp [hf]
  rw [mention, hany, eraseDups_concat]
  by_cases hn : name ∈ names
  · simp [hn, hm]
  · simp [hn, hm, hnew hn]

theorem states_modify (hm : m.states = names.eraseDups.map f) (hf : ∀ n, (f n).name = n)
    (name : String) (g : State → State) :
    (m.modify name g).states =
      names.eraseDups.map fun n => if n = name then g (f n) else f n := by
  simp [modify, hm, hf, Function.comp_def]

end Step

theorem add_of_not_isStateItem (m : StateMachine) {i : Item} (h : i.isStateItem = false) :
    m.add i = m := by
  unfold add
  split <;> first | rfl | cases h

theorem heading_mention (m : StateMachine) (name : String) :
    (m.mention name).name = m.name ∧ (m.mention name).summary = m.summary := by
  unfold mention
  split <;> exact ⟨rfl, rfl⟩

/-- Reading an item changes nothing but states. -/
theorem heading_add (m : StateMachine) (i : Item) :
    (m.add i).name = m.name ∧ (m.add i).summary = m.summary := by
  obtain ⟨name, text, rfl⟩ | ⟨source, target, text, rfl⟩ | hi := i.state_cases
  · exact heading_mention m name
  · obtain ⟨hn, hs⟩ := heading_mention ((m.mention source).modify source _) target
    exact ⟨hn.trans (heading_mention m source).1, hs.trans (heading_mention m source).2⟩
  · rw [add_of_not_isStateItem m hi]
    exact ⟨rfl, rfl⟩

/-- One more item is read. -/
theorem states_add {m : StateMachine} {group : List Item} (hm : m.states = statesOf group)
    (i : Item) : (m.add i).states = statesOf (group ++ [i]) := by
  have hname (g : List Item) (n : String) : (stateOf g n).name = n := rfl
  obtain ⟨name, text, rfl⟩ | ⟨source, target, text, rfl⟩ | hi := i.state_cases
  · have hopen := states_mention hm (hname group) name stateOf_of_notMem
    rw [add, states_modify hopen (hname group), statesOf, mentioned_concat]
    exact List.map_congr_left fun n _ => (stateOf_concat_document group name text n).symm
  · have hopen := states_mention hm (hname group) source stateOf_of_notMem
    have hwrite : ((m.mention source).modify source fun s =>
        { s with transitions := setEntry target text s.transitions }).states =
        (mentioned group ++ [source]).eraseDups.map
          (stateOf (group ++ [.transition source target text])) := by
      rw [states_modify hopen (hname group)]
      exact List.map_congr_left fun n _ =>
        (stateOf_concat_transition group source target text n).symm
    rw [add, states_mention hwrite (hname _) target, statesOf, mentioned_concat, List.append_assoc]
    · rfl
    · intro hnew
      rw [List.mem_append, not_or, List.mem_singleton] at hnew
      rw [stateOf_concat_transition, if_neg hnew.2, stateOf_of_notMem hnew.1]
  · rw [add_of_not_isStateItem m hi, statesOf_concat_of_not_isStateItem group hi, hm]

/-- The machine that a start and the items of its group describe. -/
def ofGroup (text : String) (group : List Item) : StateMachine where
  name := (ofText text).name
  summary := (ofText text).summary
  states := statesOf group

@[simp] theorem name_ofGroup (text : String) (group : List Item) :
    (ofGroup text group).name = (ofText text).name := by
  rw [ofGroup]

@[simp] theorem summary_ofGroup (text : String) (group : List Item) :
    (ofGroup text group).summary = (ofText text).summary := by
  rw [ofGroup]

@[simp] theorem states_ofGroup (text : String) (group : List Item) :
    (ofGroup text group).states = statesOf group := by
  rw [ofGroup]

theorem eq_ofGroup {m : StateMachine} {text : String} {group : List Item}
    (hn : m.name = (ofText text).name) (hs : m.summary = (ofText text).summary)
    (hm : m.states = statesOf group) : m = ofGroup text group := by
  cases m
  simp_all [ofGroup]

/-- All items of a group are read. -/
theorem foldl_add_ofText (text : String) (group : List Item) :
    group.foldl add (ofText text) = ofGroup text group := by
  induction group using List.reverseRecOn with
  | nil =>
    rw [List.foldl_nil]
    exact eq_ofGroup rfl rfl rfl
  | append_singleton group i ih =>
    rw [List.foldl_concat, ih]
    obtain ⟨hn, hs⟩ := heading_add (ofGroup text group) i
    rw [name_ofGroup] at hn
    rw [summary_ofGroup] at hs
    exact eq_ofGroup hn hs (states_add (states_ofGroup text group) i)

end StateMachine

/-! ### Groups in a list of items -/

theorem groupStep_start (ms : List StateMachine) (text : String) :
    groupStep ms (.simple .machine text) = .ofText text :: ms := by
  cases ms <;> rfl

theorem groupStep_of_not_start {i : Item} (h : i.isMachineStart = false) :
    groupStep [] i = [] ∧ ∀ m ms, groupStep (m :: ms) i = m.add i :: ms := by
  cases i with
  | simple tag text =>
    cases tag with
    | machine => cases h
    | _ => exact ⟨rfl, fun _ _ => rfl⟩
  | _ => exact ⟨rfl, fun _ _ => rfl⟩

theorem exists_text_of_start {i : Item} (h : i.isMachineStart = true) :
    ∃ text, i = .simple .machine text := by
  unfold Item.isMachineStart at h
  split at h
  · exact ⟨_, rfl⟩
  · cases h

theorem length_groupStep (ms : List StateMachine) (i : Item) :
    (groupStep ms i).length = ms.length + if i.isMachineStart then 1 else 0 := by
  cases i with
  | simple tag text => cases tag <;> cases ms <;> rfl
  | _ => cases ms <;> rfl

/-- Each start opens a machine, and nothing else does. -/
theorem length_stateMachines (items : List Item) :
    (stateMachines items).length = items.countP Item.isMachineStart := by
  have h (ms : List StateMachine) :
      (items.foldl groupStep ms).length = ms.length + items.countP Item.isMachineStart := by
    induction items generalizing ms with
    | nil => rfl
    | cons i items ih =>
      rw [List.foldl_cons, ih, length_groupStep, List.countP_cons]
      omega
  simpa [stateMachines] using h []

/-- A list is cut before its first start. -/
theorem cut_at_start (items : List Item) :
    (∀ i ∈ items.takeWhile (! ·.isMachineStart), i.isMachineStart = false) ∧
      ∀ i ∈ (items.dropWhile (! ·.isMachineStart)).head?, i.isMachineStart = true := by
  refine ⟨fun i hi => by simpa using List.mem_takeWhile_imp hi, fun i hi => ?_⟩
  have h := List.head?_dropWhile_not (! Item.isMachineStart ·) items
  rw [hi] at h
  simpa using h

/-- The start that some number of starts stand before. -/
theorem exists_start_of_lt {items : List Item} {k : Nat}
    (h : k < items.countP Item.isMachineStart) :
    ∃ before text rest, items = before ++ .simple .machine text :: rest ∧
      before.countP Item.isMachineStart = k := by
  induction items generalizing k with
  | nil => cases h
  | cons i items ih =>
    cases hi : i.isMachineStart with
    | true =>
      rw [List.countP_cons_of_pos hi] at h
      cases k with
      | zero =>
        obtain ⟨text, rfl⟩ := exists_text_of_start hi
        exact ⟨[], text, items, rfl, rfl⟩
      | succ k =>
        obtain ⟨before, text, rest, rfl, hk⟩ := ih (Nat.lt_of_succ_lt_succ h)
        exact ⟨i :: before, text, rest, rfl, by rw [List.countP_cons_of_pos hi, hk]⟩
    | false =>
      have hn : ¬ i.isMachineStart = true := by simp [hi]
      rw [List.countP_cons_of_neg hn] at h
      obtain ⟨before, text, rest, rfl, hk⟩ := ih h
      exact ⟨i :: before, text, rest, rfl, by rw [List.countP_cons_of_neg hn, hk]⟩

/-- Only the machine that was opened last changes. -/
theorem foldl_groupStep_append (items : List Item) (m : StateMachine)
    (ms rest : List StateMachine) :
    items.foldl groupStep (m :: ms ++ rest) = items.foldl groupStep (m :: ms) ++ rest := by
  induction items generalizing m ms with
  | nil => rfl
  | cons i items ih =>
    rw [List.foldl_cons, List.foldl_cons]
    cases hi : i.isMachineStart with
    | true =>
      obtain ⟨text, rfl⟩ := exists_text_of_start hi
      rw [groupStep_start, groupStep_start, ← ih]
      rfl
    | false =>
      rw [List.cons_append, (groupStep_of_not_start hi).2, (groupStep_of_not_start hi).2, ← ih]
      rfl

theorem foldl_groupStep_group {group : List Item} (h : ∀ i ∈ group, i.isMachineStart = false)
    (m : StateMachine) (ms : List StateMachine) :
    group.foldl groupStep (m :: ms) = group.foldl StateMachine.add m :: ms := by
  induction group generalizing m with
  | nil => rfl
  | cons i group ih =>
    rw [List.foldl_cons, (groupStep_of_not_start (h i List.mem_cons_self)).2,
      ih fun j hj => h j (List.mem_cons_of_mem i hj), List.foldl_cons]

section Groups

variable {ys group after : List Item} {text : String}

/-- What begins with a start is grouped apart from what comes before. -/
theorem stateMachines_append (xs : List Item) (h : ∀ i ∈ ys.head?, i.isMachineStart = true) :
    stateMachines (xs ++ ys) = stateMachines xs ++ stateMachines ys := by
  cases ys with
  | nil => simp
  | cons i ys =>
    obtain ⟨text, rfl⟩ := exists_text_of_start (h i rfl)
    have hframe := foldl_groupStep_append ys (.ofText text) [] (xs.foldl groupStep [])
    rw [List.cons_append, List.nil_append] at hframe
    simp only [stateMachines, List.foldl_append, List.foldl_cons, groupStep_start, hframe,
      List.reverse_append]

/-- A start and the items up to the next one make one machine. -/
theorem stateMachines_group (hg : ∀ i ∈ group, i.isMachineStart = false)
    (ha : ∀ i ∈ after.head?, i.isMachineStart = true) :
    stateMachines (.simple .machine text :: (group ++ after)) =
      .ofGroup text group :: stateMachines after := by
  rw [← List.cons_append, stateMachines_append _ ha, stateMachines, List.foldl_cons, groupStep_start,
    foldl_groupStep_group hg, StateMachine.foldl_add_ofText]
  rfl

end Groups

/-! ### What a machine is made of -/

theorem entry?_eq_some_iff {i : Item} {name : String} {e : String × String} :
    i.entry? name = some e ↔ i = .transition name e.1 e.2 := by
  obtain ⟨target, text⟩ := e
  cases i with
  | transition source t x =>
    by_cases hs : source = name <;> simp [Item.entry?, hs]
  | _ => simp [Item.entry?]

/-- The text of an item that tells of the transition between two states. -/
def textTo? (name target : String) (i : Item) : Option String :=
  (i.entry? name).bind fun e => if target = e.1 then some e.2 else none

theorem textTo?_eq_some_iff {name target : String} {i : Item} {text : String} :
    textTo? name target i = some text ↔ i = .transition name target text := by
  rw [textTo?, Option.bind_eq_some_iff]
  constructor
  · rintro ⟨e, he, ht⟩
    split at ht
    · cases ht
      subst target
      exact entry?_eq_some_iff.mp he
    · cases ht
  · rintro rfl
    exact ⟨(target, text), entry?_eq_some_iff.mpr rfl, if_pos rfl⟩

theorem lookup_transitions (group : List Item) (name target : String) :
    (stateOf group name).transitions.lookup target =
      group.reverse.findSome? (textTo? name target) := by
  rw [stateOf, lookup_tableOf, ← List.filterMap_reverse, List.lookup_eq_findSome?,
    ← List.head?_filterMap, List.filterMap_filterMap, List.head?_filterMap]
  simp only [beq_iff_eq]
  rfl

/-- The text of a transition is the last one that a group gives. -/
theorem lookup_transitions_iff {group : List Item} {name target text : String} :
    (stateOf group name).transitions.lookup target = some text ↔
      ∃ a b, group = a ++ .transition name target text :: b ∧
        ∀ other, .transition name target other ∉ b := by
  rw [lookup_transitions, List.findSome?_eq_some_iff]
  constructor
  · rintro ⟨b, i, a, hg, hi, hb⟩
    obtain rfl := textTo?_eq_some_iff.mp hi
    refine ⟨a.reverse, b.reverse, ?_, fun other hm => ?_⟩
    · rw [← List.reverse_inj, hg]
      simp
    · have hn := hb _ (List.mem_reverse.mp hm)
      rw [textTo?_eq_some_iff.mpr rfl] at hn
      cases hn
  · rintro ⟨a, b, rfl, hb⟩
    refine ⟨b.reverse, .transition name target text, a.reverse, by simp,
      textTo?_eq_some_iff.mpr rfl, fun i hi => ?_⟩
    rw [Option.eq_none_iff_forall_ne_some]
    intro x hx
    exact hb x (textTo?_eq_some_iff.mp hx ▸ List.mem_reverse.mp hi)

namespace StateMachine

/-- A machine is what the items of a group say: each state that is mentioned is there once, in the
order of first mention, with its documentation and the last text of each of its transitions, whose
targets are states too. -/
structure DescribedBy (m : StateMachine) (group : List Item) : Prop where
  nodup : (m.states.map (·.name)).Nodup
  names : m.states.map (·.name) = (group.flatMap Item.stateNames).eraseDups
  closed : ∀ s ∈ m.states, ∀ e ∈ s.transitions, ∃ t ∈ m.states, t.name = e.1
  targets : ∀ s ∈ m.states,
    s.transitions.map Prod.fst = ((group.filterMap (Item.entry? s.name)).map Prod.fst).eraseDups
  texts : ∀ s ∈ m.states, ∀ target text, s.transitions.lookup target = some text ↔
    ∃ a b, group = a ++ .transition s.name target text :: b ∧
      ∀ other, .transition s.name target other ∉ b
  items : ∀ s ∈ m.states, s.items = group.filter (Item.documents s.name)

theorem map_name_ofGroup (text : String) (group : List Item) :
    (ofGroup text group).states.map (·.name) = (mentioned group).eraseDups := by
  simp [statesOf, stateOf, Function.comp_def]

theorem describedBy_ofGroup (text : String) (group : List Item) :
    (ofGroup text group).DescribedBy group := by
  have hstate {s : State} (hs : s ∈ (ofGroup text group).states) : s = stateOf group s.name := by
    obtain ⟨n, -, rfl⟩ := List.mem_map.mp (states_ofGroup text group ▸ hs)
    rfl
  have htargets (n : String) : (stateOf group n).transitions.map Prod.fst =
      ((group.filterMap (Item.entry? n)).map Prod.fst).eraseDups := map_fst_tableOf _
  refine ⟨?_, map_name_ofGroup text group, fun s hs e he => ?_, fun s hs => ?_,
    fun s hs target x => ?_, fun s hs => ?_⟩
  · rw [map_name_ofGroup]
    exact nodup_eraseDups _
  · -- the item that gives the transition mentions its target
    have ht : e.1 ∈ s.transitions.map Prod.fst := List.mem_map_of_mem he
    rw [hstate hs, htargets, List.mem_eraseDups] at ht
    obtain ⟨e', hm, he'⟩ := List.mem_map.mp ht
    obtain ⟨i, hi, hie⟩ := List.mem_filterMap.mp hm
    have hname : e.1 ∈ (ofGroup text group).states.map (·.name) := by
      rw [map_name_ofGroup, List.mem_eraseDups, mentioned, List.mem_flatMap]
      refine ⟨i, hi, ?_⟩
      rw [entry?_eq_some_iff.mp hie, Item.stateNames, he']
      simp
    obtain ⟨t, ht, hte⟩ := List.mem_map.mp hname
    exact ⟨t, ht, hte⟩
  · rw [hstate hs]
    exact htargets s.name
  · rw [hstate hs]
    exact lookup_transitions_iff
  · rw [hstate hs]
    rfl

end StateMachine

/-- The items `group` stand between a start with the text `text` and the next start, and `k` other
starts come before. -/
structure IsGroup (items : List Item) (k : Nat) (text : String) (group : List Item) : Prop where
  start : ∃ before after, items = before ++ .simple .machine text :: (group ++ after) ∧
    before.countP Item.isMachineStart = k ∧ ∀ i ∈ after.head?, i.isMachineStart = true
  no_start : ∀ i ∈ group, i.isMachineStart = false

theorem IsGroup.getElem?_stateMachines {items : List Item} {k : Nat} {text : String}
    {group : List Item} (h : IsGroup items k text group) :
    (stateMachines items)[k]? = some (.ofGroup text group) := by
  obtain ⟨before, after, rfl, rfl, ha⟩ := h.start
  rw [stateMachines_append before (by simp [Item.isMachineStart]),
    stateMachines_group h.no_start ha, ← length_stateMachines,
    List.getElem?_append_right (Nat.le_refl _), Nat.sub_self]
  rfl

theorem exists_isGroup {items : List Item} {k : Nat} (h : k < (stateMachines items).length) :
    ∃ text group, IsGroup items k text group := by
  rw [length_stateMachines] at h
  obtain ⟨before, text, rest, rfl, hk⟩ := exists_start_of_lt h
  obtain ⟨hg, ha⟩ := cut_at_start rest
  refine ⟨text, rest.takeWhile (! ·.isMachineStart),
    ⟨before, rest.dropWhile (! ·.isMachineStart), ?_, hk, ha⟩, hg⟩
  rw [List.takeWhile_append_dropWhile]

/-- There are as many machines as starts, in order, and each of them is what the items from its
start up to the next one describe. -/
theorem machines_described (items : List Item) :
    (stateMachines items).length = items.countP Item.isMachineStart ∧
      ∀ k m, (stateMachines items)[k]? = some m →
        (∃ text group, IsGroup items k text group) ∧
          ∀ text group, IsGroup items k text group →
            m.name = (StateMachine.ofText text).name ∧
              m.summary = (StateMachine.ofText text).summary ∧ m.DescribedBy group := by
  refine ⟨length_stateMachines items, fun k m hm => ⟨?_, fun text group hg => ?_⟩⟩
  · exact exists_isGroup (List.getElem?_eq_some_iff.mp hm).1
  · rw [hg.getElem?_stateMachines] at hm
    obtain rfl := Option.some.inj hm
    exact ⟨StateMachine.name_ofGroup text group, StateMachine.summary_ofGroup text group,
      StateMachine.describedBy_ofGroup text group⟩

/-- A state before all machines, a machine whose states are mentioned in every way, and another that
mentions one of them again. -/
def trafficSample : List Item :=
  [.named .state "LOST" "before all", .simple .machine "main\nThe main loop.",
   .transition "RUN" "IDLE" "stop", .named .state "IDLE" "waits", .simple .note "kept apart",
   .transition "RUN" "RUN" "again", .transition "RUN" "IDLE" "halt", .named .state "IDLE" "rests",
   .named .state "OFF" "", .simple .machine "next", .transition "IDLE" "RUN" "go"]

theorem machines_described_trafficSample :
    (stateMachines trafficSample).length = 2 ∧
      IsGroup trafficSample 0 "main\nThe main loop." ((trafficSample.drop 2).take 7) ∧
      ∃ m, (stateMachines trafficSample)[0]? = some m ∧
        m.states.map (·.name) = ["RUN", "IDLE", "OFF"] ∧
        m.DescribedBy ((trafficSample.drop 2).take 7) := by
  have hg : IsGroup trafficSample 0 "main\nThe main loop." ((trafficSample.drop 2).take 7) :=
    ⟨⟨trafficSample.take 1, trafficSample.drop 9, rfl, by decide, by decide⟩, by decide⟩
  have h := machines_described trafficSample
  obtain ⟨-, -, hd⟩ := (h.2 0 _ hg.getElem?_stateMachines).2 _ _ hg
  exact ⟨h.1.trans (by decide), hg, _, hg.getElem?_stateMachines, hd.names.trans (by decide), hd⟩

end DesignDoc.Document
