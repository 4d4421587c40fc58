import DesignDoc.Proofs.Document.Grouping
import Mathlib.Data.List.Forall2
import Mathlib.Data.List.Perm.Basic
import Mathlib.Data.List.TakeWhile

/-! What the grouping of items does not depend on. The items before the first start and those that
are not about machines can be left out. A change between two starts changes at most the machine that
is described there, and if two transitions from one state to different targets trade places, this
machine has the same states with the same texts, in another order at most. -/

namespace DesignDoc.Document

open DesignDoc.Annotation

/-! ### Items that can be left out -/

theorem groupStep_of_other {i : Item} (hs : i.isMachineStart = false) (hi : i.isStateItem = false)
    (ms : List StateMachine) : groupStep ms i = ms := by
  cases ms with
  | nil => exact (groupStep_of_not_start hs).1
  | cons m ms => rw [(groupStep_of_not_start hs).2, StateMachine.add_of_not_isStateItem m hi]

/-- Only starts and items about states are grouped. -/
theorem stateMachines_filter (items : List Item) :
    stateMachines (items.filter fun i => i.isMachineStart || i.isStateItem) =
      stateMachines items := by
  have hstep : (fun ms i => if (i.isMachineStart || i.isStateItem) = true then groupStep ms i
      else ms) = groupStep := by
    funext ms i
    split
    · rfl
    · rename_i h
      rw [Bool.not_eq_true, Bool.or_eq_false_iff] at h
      exact (groupStep_of_other h.1 h.2 ms).symm
  rw [stateMachines, List.foldl_filter, hstep, stateMachines]

theorem stateMachines_of_no_start {items : List Item} (h : ∀ i ∈ items, i.isMachineStart = false) :
    stateMachines items = [] := by
  rw [← List.length_eq_zero_iff, length_stateMachines, List.countP_eq_zero]
  simpa using h

/-- The items from the first start on are grouped. -/
theorem stateMachines_dropWhile (items : List Item) :
    stateMachines (items.dropWhile (! ·.isMachineStart)) = stateMachines items := by
  obtain ⟨hbefore, hstart⟩ := cut_at_start items
  have h := stateMachines_append (items.takeWhile (! ·.isMachineStart)) hstart
  rw [List.takeWhile_append_dropWhile, stateMachines_of_no_start hbefore, List.nil_append] at h
  exact h.symm

/-! ### A change inside a group -/

/-- The group that the end of a list belongs to. -/
theorem exists_last_start (items : List Item) :
    (∀ i ∈ items, i.isMachineStart = false) ∨
      ∃ before text group, items = before ++ .simple .machine text :: group ∧
        ∀ i ∈ group, i.isMachineStart = false := by
  induction items using List.reverseRecOn with
  | nil => exact .inl (by simp)
  | append_singleton items i ih =>
    cases hi : i.isMachineStart with
    | true =>
      obtain ⟨text, rfl⟩ := exists_text_of_start hi
      exact .inr ⟨items, text, [], rfl, by simp⟩
    | false =>
      rcases ih with h | ⟨before, text, group, rfl, hg⟩
      · exact .inl (by simpa [or_imp, forall_and, hi] using h)
      · refine .inr ⟨before, text, group ++ [i], by simp, ?_⟩
        simpa [or_imp, forall_and, hi] using hg

/-- If a change inside a group relates what the group describes, it relates all machines. -/
theorem forall₂_stateMachines_of_group {r : StateMachine → StateMachine → Prop} (hr : ∀ m, r m m)
    (a b : List Item) {xs ys : List Item} (hx : ∀ i ∈ xs, i.isMachineStart = false)
    (hy : ∀ i ∈ ys, i.isMachineStart = false)
    (h : ∀ text g g', r (.ofGroup text (g ++ (xs ++ g'))) (.ofGroup text (g ++ (ys ++ g')))) :
    List.Forall₂ r (stateMachines (a ++ (xs ++ b))) (stateMachines (a ++ (ys ++ b))) := by
  have hrefl (ms : List StateMachine) : List.Forall₂ r ms ms :=
    List.forall₂_same.mpr fun m _ => hr m
  obtain ⟨hg', hafter⟩ := cut_at_start b
  rw [← List.takeWhile_append_dropWhile (p := (! ·.isMachineStart)) (l := b)]
  generalize b.takeWhile (! ·.isMachineStart) = g' at hg' ⊢
  generalize b.dropWhile (! ·.isMachineStart) = after at hafter ⊢
  obtain ha | ⟨before, text, g, rfl, hg⟩ := exists_last_start a
  · -- no machine is open, and the change is passed over
    have hlist {zs : List Item} (hz : ∀ i ∈ zs, i.isMachineStart = false) :
        stateMachines (a ++ (zs ++ (g' ++ after))) = stateMachines after := by
      have hno : ∀ i ∈ a ++ (zs ++ g'), i.isMachineStart = false := by
        simpa [or_imp, forall_and] using ⟨ha, hz, hg'⟩
      have h := stateMachines_append (a ++ (zs ++ g')) hafter
      rw [stateMachines_of_no_start hno, List.nil_append] at h
      rw [← h, List.append_assoc, List.append_assoc]
    rw [hlist hx, hlist hy]
    exact hrefl _
  · have hlist {zs : List Item} (hz : ∀ i ∈ zs, i.isMachineStart = false) :
        stateMachines (before ++ .simple .machine text :: g ++ (zs ++ (g' ++ after))) =
          stateMachines before ++ .ofGroup text (g ++ (zs ++ g')) :: stateMachines after := by
      have hno : ∀ i ∈ g ++ (zs ++ g'), i.isMachineStart = false := by
        simpa [or_imp, forall_and] using ⟨hg, hz, hg'⟩
      rw [← stateMachines_group hno hafter,
        ← stateMachines_append before (by simp [Item.isMachineStart])]
      simp
    rw [hlist hx, hlist hy]
    exact List.rel_append (hrefl _) (.cons (h text g g') (hrefl _))

/-! ### The same machine in another order -/

/-- Nothing but the order of transitions is different. -/
structure State.Reordered (s t : State) : Prop where
  name : t.name = s.name
  items : t.items = s.items
  transitions : s.transitions.Perm t.transitions

/-- The text that a machine has for the transition between two states. -/
def StateMachine.text? (m : StateMachine) (source target : String) : Option String :=
  (m.get? source).bind (·.transitions.lookup target)

/-- Nothing but the order of states and of transitions is different. -/
structure StateMachine.Reordered (m m' : StateMachine) : Prop where
  name : m'.name = m.name
  summary : m'.summary = m.summary
  states : ∃ states, m.states.Perm states ∧ List.Forall₂ State.Reordered states m'.states
  names : ∀ n, n ∈ m'.states.map (·.name) ↔ n ∈ m.states.map (·.name)
  texts : ∀ source target, m'.text? source target = m.text? source target

theorem State.Reordered.refl (s : State) : s.Reordered s := ⟨rfl, rfl, .rfl⟩

theorem StateMachine.Reordered.refl (m : StateMachine) : m.Reordered m :=
  ⟨rfl, rfl, ⟨m.states, .rfl, List.forall₂_same.mpr fun s _ => .refl s⟩, fun _ => .rfl,
    fun _ _ => rfl⟩

theorem perm_eraseDups {l l' : List String} (h : l.Perm l') : l.eraseDups.Perm l'.eraseDups := by
  rw [List.perm_ext_iff_of_nodup (nodup_eraseDups l) (nodup_eraseDups l')]
  intro a
  rw [List.mem_eraseDups, List.mem_eraseDups, h.mem_iff]

theorem mem_iff_lookup {es : List (String × String)} (h : (es.map Prod.fst).Nodup)
    (e : String × String) : e ∈ es ↔ es.lookup e.1 = some e.2 := by
  induction es with
  | nil => simp
  | cons d es ih =>
    rw [List.map_cons, List.nodup_cons] at h
    rw [lookup_cons_eq_ite, List.mem_cons]
    by_cases hk : e.1 = d.1
    · have hout : e ∉ es := fun he => h.1 (hk ▸ List.mem_map_of_mem he)
      simp [hk, hout, Prod.ext_iff, eq_comm]
    · have hne : e ≠ d := fun he => hk (he ▸ rfl)
      simp [hk, hne, ih h.2]

/-- Tables that give the same answers have the same entries. -/
theorem perm_tableOf {es es' : List (String × String)}
    (h : ∀ k, (tableOf es).lookup k = (tableOf es').lookup k) :
    (tableOf es).Perm (tableOf es') := by
  have hkeys (es : List (String × String)) : ((tableOf es).map Prod.fst).Nodup := by
    rw [map_fst_tableOf]
    exact nodup_eraseDups _
  rw [List.perm_ext_iff_of_nodup (.of_map _ (hkeys es)) (.of_map _ (hkeys es'))]
  intro e
  rw [mem_iff_lookup (hkeys es), mem_iff_lookup (hkeys es'), h]

theorem StateMachine.get?_ofGroup (text : String) (group : List Item) (n : String) :
    (ofGroup text group).get? n =
      if n ∈ mentioned group then some (stateOf group n) else none := by
  have hfind (names : List String) : (names.map (stateOf group)).find? (·.name = n) =
      if n ∈ names then some (stateOf group n) else none := by
    induction names with
    | nil => rfl
    | cons a names ih =>
      rw [List.map_cons, List.find?_cons]
      by_cases ha : a = n
      · simp [stateOf, ha]
      · simp [stateOf, ha, Ne.symm ha, ih]
  rw [get?, states_ofGroup, statesOf, hfind, if_congr List.mem_eraseDups rfl rfl]

/-- A machine has the last text that its group gives. -/
theorem StateMachine.text?_ofGroup (text : String) (group : List Item) (source target : String) :
    (ofGroup text group).text? source target =
      group.reverse.findSome? (textTo? source target) := by
  rw [text?, get?_ofGroup, ← lookup_transitions]
  by_cases hs : source ∈ mentioned group
  · rw [if_pos hs, Option.bind_some]
  · rw [if_neg hs, stateOf_of_notMem hs]
    rfl

/-- Groups that mention the same names, say the same of each state and end with the same texts
describe the same machine up to order. -/
theorem StateMachine.reordered_ofGroup {group group' : List Item}
    (hm : (mentioned group).Perm (mentioned group'))
    (hd : ∀ n, group.filter (Item.documents n) = group'.filter (Item.documents n))
    (ht : ∀ source target, group.reverse.findSome? (textTo? source target) =
      group'.reverse.findSome? (textTo? source target)) (text : String) :
    (ofGroup text group).Reordered (ofGroup text group') where
  name := by simp
  summary := by simp
  states := by
    refine ⟨(mentioned group').eraseDups.map (stateOf group), ?_, ?_⟩
    · rw [states_ofGroup, statesOf]
      exact (perm_eraseDups hm).map _
    · rw [states_ofGroup, statesOf, List.forall₂_map_left_iff, List.forall₂_map_right_iff,
        List.forall₂_same]
      intro n _
      refine ⟨rfl, (hd n).symm, perm_tableOf fun target => ?_⟩
      exact (lookup_transitions group n target).trans
        ((ht n target).trans (lookup_transitions group' n target).symm)
  names n := by
    rw [map_name_ofGroup, map_name_ofGroup, List.mem_eraseDups, List.mem_eraseDups, hm.mem_iff]
  texts source target := by rw [text?_ofGroup, text?_ofGroup, ht]

/-- Two transitions from one state to different targets trade places. -/
theorem StateMachine.reordered_swap {t u : String} (htu : t ≠ u) (source x y text : String)
    (g g' : List Item) :
    (ofGroup text (g ++ ([.transition source t x, .transition source u y] ++ g'))).Reordered
      (ofGroup text (g ++ ([.transition source u y, .transition source t x] ++ g'))) := by
  refine reordered_ofGroup ?_ (fun n => ?_) (fun s target => ?_) text
  · exact (((List.Perm.swap _ _ []).append_right g').append_left g).flatMap_right _
  · simp [Item.documents]
  · -- one of the two has another target than the one that is looked for
    obtain ht | hu : target ≠ t ∨ target ≠ u := by
      by_contra! h
      exact htu (h.1.symm.trans h.2)
    · have hx : textTo? s target (.transition source t x) = none := by
        simp [Option.eq_none_iff_forall_ne_some, textTo?_eq_some_iff, ht.symm]
      simp [List.findSome?_append, List.findSome?_cons, hx]
    · have hy : textTo? s target (.transition source u y) = none := by
        simp [Option.eq_none_iff_forall_ne_some, textTo?_eq_some_iff, hu.symm]
      simp [List.findSome?_append, List.findSome?_cons, hy]

/-! ### Grouping is local -/

/-- What begins with a start is grouped apart from what comes before; items that are not about
machines, and those of states before the first start, can be left out; and where two transitions
from one state to different targets trade places, machines change their order of states and of
transitions at most. -/
theorem grouping_local :
    (∀ xs ys : List Item, (∀ i ∈ ys.head?, i.isMachineStart = true) →
      stateMachines (xs ++ ys) = stateMachines xs ++ stateMachines ys) ∧
    (∀ items : List Item,
      stateMachines ((items.filter fun i => i.isMachineStart || i.isStateItem).dropWhile
        (! ·.isMachineStart)) = stateMachines items) ∧
    ∀ (a b : List Item) (source t u x y : String), t ≠ u →
      List.Forall₂ StateMachine.Reordered
        (stateMachines (a ++ .transition source t x :: .transition source u y :: b))
        (stateMachines (a ++ .transition source u y :: .transition source t x :: b)) := by
  refine ⟨fun xs ys h => stateMachines_append xs h, fun items => ?_, ?_⟩
  · rw [stateMachines_dropWhile, stateMachines_filter]
  · intro a b source t u x y htu
    exact forall₂_stateMachines_of_group .refl a b (by simp [Item.isMachineStart])
      (by simp [Item.isMachineStart]) (StateMachine.reordered_swap htu source x y)

/-- Two machines, the first after a state that belongs to none. -/
def switchSample : List Item :=
  [.named .state "LOST" "before all", .simple .machine "main", .simple .note "kept apart",
   .transition "RUN" "IDLE" "stop", .transition "RUN" "OFF" "cut", .transition "RUN" "IDLE" "halt",
   .simple .machine "next", .transition "IDLE" "RUN" "go"]

/-- The first two transitions trade places, and so do two states. -/
theorem grouping_local_switchSample :
    stateMachines switchSample =
      stateMachines (switchSample.take 6) ++ stateMachines (switchSample.drop 6) ∧
    ∃ items, items = switchSample.take 3 ++ .transition "RUN" "OFF" "cut" ::
        .transition "RUN" "IDLE" "stop" :: switchSample.drop 5 ∧
      (stateMachines switchSample).map (·.states.map (·.name)) =
        [["RUN", "IDLE", "OFF"], ["IDLE", "RUN"]] ∧
      (stateMachines items).map (·.states.map (·.name)) =
        [["RUN", "OFF", "IDLE"], ["IDLE", "RUN"]] ∧
      List.Forall₂ StateMachine.Reordered (stateMachines switchSample) (stateMachines items) :=
  ⟨grouping_local.1 (switchSample.take 6) (switchSample.drop 6) (by decide),
    _, rfl, by decide, by decide,
    grouping_local.2.2 (switchSample.take 3) (switchSample.drop 5) "RUN" "IDLE" "OFF" "stop" "cut"
      (by decide)⟩

end DesignDoc.Document
