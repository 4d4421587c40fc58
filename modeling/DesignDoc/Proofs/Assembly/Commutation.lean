import DesignDoc.Proofs.Assembly.Refusal
import DesignDoc.Proofs.Assembly.Reports

/-! Ports do not meet documentation while events come in. A port is added to what the innermost scope
declares and nothing else is looked at; comments, parameters and signals work on what waits and on
other parts of the declarations. So a port and one of these can be taken in in either order: the state
after both is the same, and if one of them is refused, the other cannot prevent it. -/

namespace DesignDoc.Assembly

open DesignDoc.Annotation DesignDoc.Document DesignDoc.Event DesignDoc.Json DesignDoc.Recording

/-! ### Changes in different places -/

namespace State

theorem setPending_mapOwner (f : Body → Body) (items : List Item) (s : State) :
    (s.mapOwner f).setPending items = (s.setPending items).mapOwner f := by
  cases h : s.scopes <;> simp [mapOwner, setPending, h]

theorem mapOwner_comm {f g : Body → Body} (h : ∀ b, g (f b) = f (g b)) (s : State) :
    (s.mapOwner f).mapOwner g = (s.mapOwner g).mapOwner f := by
  have hfg : g ∘ f = f ∘ g := funext h
  rw [mapOwner_mapOwner, mapOwner_mapOwner, hfg]

/-- Declarations change no scope into something else. -/
theorem signalWidth_mapOwner (f : Body → Body) (d : Declaration) (s : State) :
    (s.mapOwner f).signalWidth d = s.signalWidth d := by
  cases h : s.scopes <;> simp [mapOwner, signalWidth, h]

/-- What is declared apart from the ports, and what is left waiting, does not depend on ports. -/
theorem setPending_addPorts {g : Body → Body}
    (hg : ∀ (b : Body) ports, g { b with ports := b.ports ++ ports } =
      { g b with ports := (g b).ports ++ ports }) (d : Declaration) (items : List Item)
    (s : State) :
    ((s.addPorts d).mapOwner g).setPending items =
      ((s.mapOwner g).setPending items).addPorts d := by
  rw [addPorts, addPorts, mapOwner_comm (fun b => hg b _), setPending_mapOwner]

theorem addParameters_addPorts (d e : Declaration) (s : State) :
    (s.addPorts d).addParameters e = (s.addParameters e).addPorts d := by
  rw [addParameters, addParameters, addPorts, pending_mapOwner]
  exact setPending_addPorts (fun _ _ => rfl) d _ s

theorem addSignals_addPorts (d e : Declaration) (s : State) :
    (s.addPorts d).addSignals e = (s.addSignals e).map (addPorts d) := by
  rw [addSignals, addSignals, addPorts, pending_mapOwner, signalWidth_mapOwner]
  cases s.signalWidth e with
  | error f => rfl
  | ok width => exact congrArg Except.ok (setPending_addPorts (fun _ _ => rfl) d _ s)

end State

/-! ### Events in either order -/

/-- The start of a declaration of ports. -/
def IsPortEvent {ν : Type} (e : Event ν) : Prop :=
  e.phase = .enter ∧ (e.kind = .ansiPort ∨ e.kind = .portDeclaration)

/-- A comment, or the start of a declaration that takes what waits. -/
def IsDocumentation {ν : Type} (e : Event ν) : Prop :=
  e.phase = .enter ∧
    (e.kind = .comment ∨ e.kind = .parameterDeclaration ∨ e.kind = .signalDeclaration)

/-- An action that ports before it do not change. -/
def Action.PassesPorts (a : Action) : Prop :=
  ∀ (s : State) (d : Declaration), (s.addPorts d).act a = (s.act a).map (State.addPorts d)

theorem passesPorts_comment (text : String) : (Action.comment text).PassesPorts := by
  intro s d
  rw [State.act, State.act, State.addPorts, State.pending_mapOwner, State.setPending_mapOwner]
  rfl

theorem passesPorts_parameters (e : Declaration) : (Action.parameters e).PassesPorts := by
  intro s d
  rw [State.act, State.act, State.addParameters_addPorts]
  rfl

theorem passesPorts_signals (e : Declaration) : (Action.signals e).PassesPorts :=
  fun s d => State.addSignals_addPorts d e s

section Either

variable {ν : Type} [Inspect ν] {source : String}

theorem feed_addPorts_of_map {α : Type} {e : Event ν} {x : Except Fault α} {f : α → Action}
    (h : actionOf source e = x.map f) (hf : ∀ a, (f a).PassesPorts) (s : State)
    (d : Declaration) :
    (s.addPorts d).feed source e = (s.feed source e).map (State.addPorts d) := by
  rw [State.feed, State.feed, h]
  cases x with
  | error f => rfl
  | ok a => exact hf a s d

/-- Ports before an event of documentation can come after it: it has the same effect, or is refused
for the same reason. -/
theorem feed_addPorts {e : Event ν} (h : IsDocumentation e) (source : String) (s : State)
    (d : Declaration) :
    (s.addPorts d).feed source e = (s.feed source e).map (State.addPorts d) := by
  obtain ⟨phase, kind, n⟩ := e
  obtain ⟨rfl, hkind⟩ : phase = .enter ∧ _ := h
  rcases hkind with hkind | hkind | hkind <;> obtain rfl := hkind
  · exact feed_addPorts_of_map rfl passesPorts_comment s d
  · exact feed_addPorts_of_map rfl passesPorts_parameters s d
  · exact feed_addPorts_of_map rfl passesPorts_signals s d

end Either

/-- A recording answers every question about ports. -/
theorem feed_port {e : Event Node} (h : IsPortEvent e) (source : String) (s : State) :
    s.feed source e = .ok (s.addPorts (declaredBy e.node)) := by
  obtain ⟨phase, kind, n⟩ := e
  obtain ⟨rfl, hkind⟩ : phase = .enter ∧ _ := h
  exact (feed_ports_iff hkind).mpr ⟨declaredBy n, declaration_eq_ok kind n, rfl⟩

/-! ### Runs in either order -/

/-- Two outcomes that cannot be told apart: the same fault, or the same document, and the same
diagnostics. -/
structure Outcome.Alike (o p : Outcome) : Prop where
  fault : o.fault = p.fault
  file : o.fault = none → o.state.file = p.state.file
  diagnostics : o.state.diagnostics = p.state.diagnostics

theorem Outcome.Alike.refl (o : Outcome) : o.Alike o := ⟨rfl, fun _ => rfl, rfl⟩

section Swap

variable {source : String} {p q : Event Node}

/-- After the two events nothing is left of their order, unless the second kind is refused; then the
ports are all that differs. -/
theorem feedAll_swap (hp : IsPortEvent p) (hq : IsDocumentation q) (s : State)
    (es : List (Event Node)) :
    feedAll source s (p :: q :: es) = feedAll source s (q :: p :: es) ∨
      ∃ f d, feedAll source s (p :: q :: es) = ⟨s.addPorts d, some f⟩ ∧
        feedAll source s (q :: p :: es) = ⟨s, some f⟩ := by
  have hcomm := feed_addPorts hq source s (declaredBy p.node)
  rw [feedAll_cons_ok (feed_port hp source s)]
  cases hs : s.feed source q with
  | ok t =>
    rw [hs] at hcomm
    left
    rw [feedAll_cons_ok hcomm, feedAll_cons_ok hs, feedAll_cons_ok (feed_port hp source t)]
  | error f =>
    rw [hs] at hcomm
    right
    exact ⟨f, declaredBy p.node, feedAll_cons_error hcomm es, feedAll_cons_error hs _⟩

end Swap

/-- In every recorded stream, a declaration of ports and a comment or a declaration of parameters or
signals next to it can change places: the document and the diagnostics are the same, or the fault
is. -/
theorem ports_commute {p q : Event Node} (hp : IsPortEvent p) (hq : IsDocumentation q)
    (name : String) (pre post : List (Event Node)) (s : State) :
    (run { name, events := pre ++ p :: q :: post } s).Alike
      (run { name, events := pre ++ q :: p :: post } s) := by
  cases hpre : (feedAll name s pre).fault with
  | some f =>
    simp only [run, feedAll_append_of_fault hpre]
    exact .refl _
  | none =>
    simp only [run, feedAll_append (Outcome.eq_of_fault hpre)]
    rcases feedAll_swap hp hq (feedAll name s pre).state post with heq | ⟨f, d, hpq, hqp⟩
    · rw [heq]
      exact .refl _
    · rw [hpq, hqp]
      exact ⟨rfl, by simp, State.diagnostics_mapOwner _ _⟩

/-- A port, a parameter that takes the text before it, and a comment that is refused. -/
def clkPort : Event Node :=
  .enter .ansiPort { declaration := some { declarators := [{ name := .str "clk" }] } }

def widthParameter : Event Node :=
  .enter .parameterDeclaration { declaration := some { declarators := [{ name := .str "W" }] } }

def textlessComment : Event Node := .enter .comment { text := .int 3 }

/-- An open module in which a text and the documentation of a port wait. -/
def documentedSample : List (Event Node) :=
  Recording.build [.enterModule (.str "m"), .comment (.str "/** Bus width\n@port clk early */")]

def lateComment : List (Event Node) :=
  Recording.build [.comment (.str "//* @port clk late"), .leaveModule]

/-- A strict run over two events in that module, and over what follows them. -/
def runWith (first second : Event Node) (rest : List (Event Node)) : Outcome :=
  run { name := "m.sv", events := documentedSample ++ first :: second :: rest }
    (.initial "m.sv" true)

theorem ports_commute_clkPort :
    (runWith clkPort widthParameter lateComment).Alike
      (runWith widthParameter clkPort lateComment) ∧
    (runWith widthParameter clkPort lateComment).state.file.modules.map
      (fun m => (m.ports.map (·.description), m.parameters.map (·.description))) =
        [(["late"], ["Bus width"])] ∧
    (runWith clkPort textlessComment []).Alike (runWith textlessComment clkPort []) ∧
    (runWith textlessComment clkPort []).fault = some (.unanswered .text) :=
  ⟨ports_commute ⟨rfl, .inl rfl⟩ ⟨rfl, .inr (.inl rfl)⟩ _ _ _ _, by decide,
    ports_commute ⟨rfl, .inl rfl⟩ ⟨rfl, .inl rfl⟩ _ _ _ _, by decide⟩

end DesignDoc.Assembly
