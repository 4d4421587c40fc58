import DesignDoc.Proofs.Assembly.Diagnostics

/-! What closing a scope does to its record. The items of a scope are those that were handed to it
when it was opened and those that wait in it at its end. The first port of a name takes the text of
the last of them that documents a port of this name, parameters likewise, and the items that are
neither summaries nor such documentation stay. All else that the record holds, and all other records,
are as they were. -/

namespace DesignDoc.Assembly

open DesignDoc.Annotation DesignDoc.Document DesignDoc.Event DesignDoc.Json

/-- The innermost of some scopes is closed as a record: a module goes to the file, a routine to the
innermost module around it, and nothing else changes in the file and in the scopes around. -/
def ClosedAs (s t : State) (rest : List Scope) : Element → Prop
  | .module m =>
    t.scopes = rest ∧ t.file = { s.file with modules := s.file.modules ++ [m] } ∧
      t.filePending = s.filePending
  | .routine r =>
    t.scopes = State.addTask r rest ∧ t.file = s.file ∧ t.filePending = s.filePending

theorem closedAs_closeTop {s : State} {a : Scope} {rest : List Scope} (h : s.scopes = a :: rest) :
    ClosedAs s s.closeTop rest a.settled.associate := by
  have hrecord := State.record?_of_scopes h
  cases hr : a.settled.associate with
  | module m =>
    obtain ⟨hs, hf⟩ := State.closeTop_module h (hr ▸ hrecord)
    exact ⟨hs, hf, s.filePending_closeTop⟩
  | routine r =>
    obtain ⟨hs, hf⟩ := State.closeTop_routine h (hr ▸ hrecord)
    exact ⟨hs, hf, s.filePending_closeTop⟩

/-! ### Scopes that are closed in a run -/

section Runs

variable {ν : Type} [Inspect ν] {source : String} {s t : State} {es : List (Event ν)}

/-- The items that are handed to the scopes that are open after some stages, innermost first. -/
def handings (handed : List (List Item)) (xs : List (Stage ν)) : List (List Item) :=
  xs.foldl (fun handed x => x.handing handed) handed

theorem handed_of_run (h : feedAll source s es = ⟨t, none⟩) :
    t.handed = handings s.handed (stages source s es) := by
  induction es generalizing s with
  | nil =>
    obtain rfl : s = t := congrArg Outcome.state h
    rfl
  | cons e es ih =>
    obtain ⟨a, ha, hr⟩ := feedAll_cons_iff.mp h
    rw [ih hr, handed_of_step (step_of_feed ha), stages_cons ha]
    rfl

/-- What comes before a stage is a run without a fault, even if a fault comes later. -/
theorem exists_of_stages_eq {before after : List (Stage ν)} {x : Stage ν}
    (h : stages source s es = before ++ x :: after) :
    ∃ pre post, es = pre ++ x.event :: post ∧ stages source s pre = before ∧
      feedAll source s pre = ⟨x.state, none⟩ := by
  induction before generalizing s es with
  | nil =>
    cases es with
    | nil => cases h
    | cons e es =>
      obtain ⟨rfl, -⟩ := List.cons.inj h
      exact ⟨[], es, rfl, rfl, rfl⟩
  | cons y before ih =>
    cases es with
    | nil => cases h
    | cons e es =>
      obtain ⟨rfl, hrest⟩ := List.cons.inj h
      cases he : s.feed source e with
      | error f =>
        rw [he] at hrest
        simp at hrest
      | ok t =>
        rw [he] at hrest
        obtain ⟨pre, post, rfl, rfl, hpre⟩ := ih hrest
        exact ⟨e :: pre, post, rfl, stages_cons he, feedAll_cons_iff.mpr ⟨t, he, hpre⟩⟩

/-- The end of anything is taken in. -/
theorem exists_feed_of_leave (source : String) {e : Event ν} (h : e.phase = .leave) (s : State) :
    ∃ t, s.feed source e = .ok t := by
  obtain ⟨phase, kind, n⟩ := e
  subst h
  cases kind <;> exact ⟨_, rfl⟩

theorem feed_of_closes {x : Stage ν} {a : Scope} (h : x.effect = .closes a) :
    ∃ rest, x.state.scopes = a :: rest ∧ x.state.feed source x.event = .ok x.state.closeTop := by
  have hleave : x.event.phase = .leave := by
    obtain he | ⟨-, -, he⟩ | ⟨-, -, he⟩ | ⟨-, -, hp, -, -⟩ := effect_cases x
    · simp [h] at he
    · simp [h] at he
    · simp [h] at he
    · exact hp
  obtain ⟨t, ht⟩ := exists_feed_of_leave source hleave x.state
  obtain ⟨rest, hs, rfl⟩ := closeTop_of_effect (step_of_feed ht) h
  exact ⟨rest, hs, ht⟩

/-- Every module and routine that is closed, by an event or at the end of the stream, is closed with
the items that were handed to it and those that wait in it, and so is a routine that is dropped.
Scopes that a stream without a fault leaves open are closed as by the ends of their constructs. -/
theorem association_exact (source name : String) (strict : Bool) (es : List (Event ν)) :
    let o := feedAll source (.initial name strict) es
    (o.fault = none →
      feedAll source (.initial name strict) (es ++ o.state.ends) = ⟨o.state.closeAll, none⟩) ∧
    ∀ before x after a,
      stages source (.initial name strict) (es ++ o.state.ends) = before ++ x :: after →
      x.effect = .closes a →
      ∃ rest t r, x.state.scopes = a :: rest ∧ x.state.feed source x.event = .ok t ∧
        x.state.record? = some r ∧ ClosedAs x.state t rest r ∧
        a.element.Associated
          ((handings [] before).headD [] ++ a.pending.filter (! ·.isSummary)) r := by
  refine ⟨fun h => feedAll_append_ends (Outcome.eq_of_fault h), ?_⟩
  intro before x after a hx ha
  obtain ⟨rest, hscopes, hfeed⟩ := feed_of_closes ha
  obtain ⟨pre, post, -, rfl, hpre⟩ := exists_of_stages_eq hx
  -- the record still holds the items that were handed to it
  have hhanded : (handings [] (stages source (.initial name strict) pre)).headD [] =
      a.element.body.items := by
    have hrun := handed_of_run hpre
    have hinit : (State.initial name strict).handed = [] := rfl
    rw [hinit] at hrun
    rw [← hrun, State.handed, hscopes]
    rfl
  rw [hhanded]
  exact ⟨rest, _, _, hscopes, hfeed, State.record?_of_scopes hscopes, closedAs_closeTop hscopes,
    associated_settled a⟩

/-- Two ports of one name, which is documented before the module and in it, and a parameter that is
documented by the comment before it and by its name. The module is never left. -/
def twinSample : List (Event Recording.Node) :=
  Recording.build
    [.comment (.str "/** Twins.\n@port clk first\n@param W by name\n@note kept */"),
     .enterModule (.str "m"), .comment (.str "//* before it"),
     .parameter [.str "W"] .null .null .null, .ansiPort (.str "clk") .null .null .null,
     .ansiPort (.str "clk") .null .null .null, .ansiPort (.str "d") .null .null .null,
     .comment (.str "/** Body text.\n@port clk last\n@fsm main */")]

/-- The module at the end of the stream. -/
def twinScope : Scope where
  element := .module
    { name := .str "m"
      ports := [{ name := "clk" }, { name := "clk" }, { name := "d" }]
      parameters := [{ name := "W", description := "before it" }]
      items := [.summary "Twins.", .named .port "clk" "first", .named .param "W" "by name",
        .simple .note "kept"] }
  pending := [.summary "Body text.", .named .port "clk" "last", .simple .machine "main"]

/-- The stages of the stream, with the end of the module. -/
def twinStages : List (Stage Recording.Node) :=
  stages "" (.initial "m.sv" false)
    (twinSample ++ (feedAll "" (.initial "m.sv" false) twinSample).state.ends)

theorem association_exact_twinSample :
    ∃ x ∈ twinStages, x.effect = .closes twinScope ∧
      ∃ t r, x.state.feed "" x.event = .ok t ∧ x.state.record? = some r ∧
        ClosedAs x.state t [] r ∧
        r.body.ports[0]? = some { name := "clk", description := "last" } ∧
        r.body.ports[1]? = some { name := "clk" } ∧
        r.body.parameters[0]? = some { name := "W", description := "by name" } ∧
        r.body.items = [.simple .note "kept", .simple .machine "main"] := by
  have hend : twinStages[15]?.map (fun x => (x.effect, x.state.scopes)) =
      some (.closes twinScope, [twinScope]) := by decide
  obtain ⟨x, hx, hpair⟩ := Option.map_eq_some_iff.mp hend
  obtain ⟨heffect, hscope⟩ := Prod.mk.inj hpair
  obtain ⟨hlength, hget⟩ := List.getElem?_eq_some_iff.mp hx
  have hsplit : twinStages = twinStages.take 15 ++ x :: twinStages.drop 16 := by
    rw [← hget, List.cons_getElem_drop_succ, List.take_append_drop]
  obtain ⟨rest, t, r, hscopes, hfeed, hrecord, hclosed, h⟩ :=
    (association_exact "" "m.sv" false twinSample).2 _ _ _ _ hsplit heffect
  obtain rfl : [] = rest := (List.cons.inj (hscope.symm.trans hscopes)).2
  refine ⟨x, List.mem_of_getElem? hx, heffect, t, r, hfeed, hrecord, hclosed, ?_, ?_, ?_, ?_⟩
  · exact h.ports.taken 0 _ "last" rfl (by simp) (by decide)
  · exact h.ports.untouched 1 _ rfl (.inl (by decide))
  · exact h.parameters.taken 0 _ "by name" rfl (by simp) (by decide)
  · rw [h.items]
    decide

end Runs

end DesignDoc.Assembly
