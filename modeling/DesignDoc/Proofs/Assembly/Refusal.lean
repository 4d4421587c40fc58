import DesignDoc.Proofs.Assembly.Work
import DesignDoc.Proofs.Document.Width
import DesignDoc.Recording.Builder

/-! Events that are refused. For the events of a recording it is known exactly which of them are
refused in which state. A refused event leaves the state as it was, so all goes on as if the event
had not come, and the document is that of the stream without it. -/

namespace DesignDoc.Assembly

open DesignDoc.Annotation DesignDoc.Document DesignDoc.Event DesignDoc.Json DesignDoc.Recording

/-! ### What is refused -/

/-- The events of a recording that are refused in a state, and why. -/
inductive Refuses (source : String) (s : State) : Event Node → Fault → Prop
  /-- A module, a function or a task without a node, or with one that names nothing. -/
  | unnamed (k : ScopeKind) {n : Option Node} (h : ∀ x, n = some x → x.identifier.isVacant = true) :
    Refuses source s ⟨.enter, k.kind, n⟩ (.missingIdentifier k.kind source)
  /-- A comment whose text is something else than a string. -/
  | textless {x : Node} (h : ∀ t, x.text ≠ .str t) :
    Refuses source s (.enter .comment x) (.unanswered .text)
  /-- Signals in a module or a routine, at least one, whose type has a width that cannot be read. -/
  | overlong {x : Node} {d : RawDeclaration} {type : String} {e : Text.Overlong}
    (hd : x.declaration = some d) (hne : d.declarators ≠ []) (hs : s.scopes ≠ [])
    (ht : d.type.text? = some type) (he : packedWidth type.toList = .error e) :
    Refuses source s (.enter .signalDeclaration x) (.overlong e)

theorem mapError_ok {ε ε' α : Type} (g : ε → ε') (a : α) :
    (Except.ok a : Except ε α).mapError g = .ok a := rfl

theorem mapError_error {ε ε' α : Type} (g : ε → ε') (e : ε) :
    (Except.error e : Except ε α).mapError g = .error (g e) := rfl

theorem mapError_eq_error {ε ε' α : Type} {g : ε → ε'} {x : Except ε α} {e' : ε'} :
    x.mapError g = .error e' ↔ ∃ e, x = .error e ∧ g e = e' := by
  cases x <;> simp [mapError_ok, mapError_error]

theorem bind_eq_error {ε α β : Type} {g : α → Except ε β} {x : Except ε α} {e : ε} :
    x >>= g = .error e ↔ x = .error e ∨ ∃ a, x = .ok a ∧ g a = .error e := by
  cases x <;> simp [bind, Except.bind]

section Exact

variable {source : String} {s : State} {f : Fault}

theorem signalWidth_eq_error {d : Declaration} :
    s.signalWidth d = .error f ↔ s.scopes ≠ [] ∧ d.declarators ≠ [] ∧
      ∃ e, packedWidth? d.type = .error e ∧ .overlong e = f := by
  unfold State.signalWidth
  cases hs : s.scopes with
  | nil => simp
  | cons top rest =>
    cases hd : d.declarators with
    | nil => simp
    | cons x xs => simp [mapError_eq_error]

/-- Only signals can be refused by what they ask for. -/
theorem act_eq_error {a : Action} :
    s.act a = .error f ↔ ∃ d, a = .signals d ∧ s.signalWidth d = .error f := by
  cases a with
  | signals d => simp [State.act, State.addSignals, bind_eq_error, pure, Except.pure]
  | _ => simp [State.act]

/-- A width that cannot be read is that of a type. -/
theorem packedWidth?_eq_error {type : Option String} {e : Text.Overlong} :
    packedWidth? type = .error e ↔ ∃ t, type = some t ∧ packedWidth t.toList = .error e := by
  cases type <;> simp [packedWidth?]

/-- Where nothing is recorded, nothing is named. -/
theorem requireIdentifier_eq_error {phase : Phase} {kind : Kind} {n : Option Node} :
    requireIdentifier source ⟨phase, kind, n⟩ = .error f ↔
      (∀ x, n = some x → x.identifier.isVacant = true) ∧ .missingIdentifier kind source = f := by
  cases n with
  | none =>
    have h : requireIdentifier source (⟨phase, kind, none⟩ : Event Node) =
        .error (.missingIdentifier kind source) := rfl
    simp [h]
  | some x =>
    have h : requireIdentifier source (⟨phase, kind, some x⟩ : Event Node) =
        if x.identifier.isVacant then .error (.missingIdentifier kind source)
        else .ok x.identifier := rfl
    cases hx : x.identifier.isVacant <;> simp [h, hx]

/-- Where nothing is recorded, the text is empty. -/
theorem text_eq_error {n : Option Node} {q : Question} :
    Inspect.text n = .error q ↔ ∃ x, n = some x ∧ (∀ t, x.text ≠ .str t) ∧ .text = q := by
  cases n with
  | none => simp [Inspect.text]
  | some x =>
    have h : Inspect.text (some x) = (x.text?.map .ok).getD (.error .text) := rfl
    cases hx : x.text <;> simp [h, Node.text?, hx]

/-- What a recorded node declares; where nothing is recorded, nothing is declared. -/
def declaredBy (n : Option Node) : Declaration :=
  ((n.bind (·.declaration)).map RawDeclaration.resolve).getD {}

theorem declaration_eq_ok (kind : Kind) (n : Option Node) :
    Inspect.declaration kind n = .ok (declaredBy n) := by
  cases n with
  | none => rfl
  | some x => rfl

variable {n : Option Node}

theorem feed_eq_error_of_map {ν α : Type} [Inspect ν] {e : Event ν} {x : Except Fault α}
    {g : α → Action} (h : actionOf source e = x.map g) :
    s.feed source e = .error f ↔ x = .error f ∨ ∃ a, x = .ok a ∧ s.act (g a) = .error f := by
  rw [State.feed, h]
  cases x <;> simp [Except.map, bind, Except.bind]

theorem feed_enter_eq_error {k : ScopeKind} :
    s.feed source (⟨.enter, k.kind, n⟩ : Event Node) = .error f ↔
      (∀ x, n = some x → x.identifier.isVacant = true) ∧ .missingIdentifier k.kind source = f := by
  cases k <;>
  · rw [feed_eq_error_of_map rfl]
    simp [State.act, ScopeKind.kind, requireIdentifier_eq_error]

theorem feed_comment_eq_error :
    s.feed source (⟨.enter, .comment, n⟩ : Event Node) = .error f ↔
      ∃ x, n = some x ∧ (∀ t, x.text ≠ .str t) ∧ .unanswered .text = f := by
  rw [feed_eq_error_of_map rfl]
  simp only [Event.text, mapError_eq_error, text_eq_error, State.act]
  grind

theorem feed_signals_eq_error :
    s.feed source (⟨.enter, .signalDeclaration, n⟩ : Event Node) = .error f ↔
      s.signalWidth (declaredBy n) = .error f := by
  rw [feed_eq_error_of_map rfl]
  simp [requireDeclaration, Event.declaration, declaration_eq_ok, mapError_ok, act_eq_error]

theorem feed_declaration_ne_error {k : Kind}
    (hk : k = .ansiPort ∨ k = .portDeclaration ∨ k = .parameterDeclaration) :
    s.feed source (⟨.enter, k, n⟩ : Event Node) ≠ .error f := by
  rcases hk with rfl | rfl | rfl <;>
  · rw [Ne, feed_eq_error_of_map rfl]
    simp [requireDeclaration, Event.declaration, declaration_eq_ok, mapError_ok, State.act]

theorem signalWidth_declared_eq_error :
    s.signalWidth (declaredBy n) = .error f ↔
      ∃ x d type e, n = some x ∧ x.declaration = some d ∧ d.declarators ≠ [] ∧ s.scopes ≠ [] ∧
        d.type.text? = some type ∧ packedWidth type.toList = .error e ∧ .overlong e = f := by
  rw [signalWidth_eq_error]
  cases n with
  | none => simp [declaredBy]
  | some x =>
    cases hd : x.declaration with
    | none => simp [declaredBy, hd]
    | some d =>
      have hx : declaredBy (some x) = d.resolve := by simp [declaredBy, hd]
      have hne : d.resolve.declarators ≠ [] ↔ d.declarators ≠ [] := by
        simp [RawDeclaration.resolve]
      rw [hx, hne]
      constructor
      · rintro ⟨hs, hne, e, he, rfl⟩
        obtain ⟨type, ht, he⟩ := packedWidth?_eq_error.mp he
        exact ⟨x, d, type, e, rfl, hd, hne, hs, ht, he, rfl⟩
      · rintro ⟨y, c, type, e, hy, hc, hne, hs, ht, he, rfl⟩
        obtain rfl := Option.some.inj hy
        obtain rfl := Option.some.inj (hd.symm.trans hc)
        exact ⟨hs, hne, e, packedWidth?_eq_error.mpr ⟨type, ht, he⟩, rfl⟩

/-- An event of a recording is refused in these cases and in no others. -/
theorem feed_eq_error_iff {e : Event Node} :
    s.feed source e = .error f ↔ Refuses source s e f := by
  constructor
  · intro h
    by_cases hi : isIdle e = true
    · rw [feed_idle hi] at h
      cases h
    obtain ⟨phase, kind, n⟩ := e
    have henter (k : ScopeKind) (h : s.feed source (⟨.enter, k.kind, n⟩ : Event Node) = .error f) :
        Refuses source s ⟨.enter, k.kind, n⟩ f := by
      obtain ⟨hn, rfl⟩ := feed_enter_eq_error.mp h
      exact .unnamed k hn
    cases phase with
    | enter =>
      cases kind with
      | comment =>
        obtain ⟨x, rfl, hx, rfl⟩ := feed_comment_eq_error.mp h
        exact .textless hx
      | module => exact henter .module h
      | function => exact henter .function h
      | task => exact henter .task h
      | ansiPort => exact absurd h (feed_declaration_ne_error (.inl rfl))
      | portDeclaration => exact absurd h (feed_declaration_ne_error (.inr (.inl rfl)))
      | parameterDeclaration => exact absurd h (feed_declaration_ne_error (.inr (.inr rfl)))
      | signalDeclaration =>
        obtain ⟨x, d, type, e, rfl, hd, hne, hs, ht, he, rfl⟩ :=
          signalWidth_declared_eq_error.mp (feed_signals_eq_error.mp h)
        exact .overlong hd hne hs ht he
      | parameterPortList => exact absurd rfl hi
    | leave =>
      -- The end of a construct is never refused.
      cases kind <;> cases h
  · intro h
    cases h with
    | unnamed k h => exact feed_enter_eq_error.mpr ⟨h, rfl⟩
    | textless h => exact feed_comment_eq_error.mpr ⟨_, rfl, h, rfl⟩
    | overlong hd hne hs ht he =>
      exact feed_signals_eq_error.mpr
        (signalWidth_declared_eq_error.mpr ⟨_, _, _, _, rfl, hd, hne, hs, ht, he, rfl⟩)

end Exact

/-! ### Going on -/

/-- The state that some work leaves behind, whether it came to its end or not. -/
def Work.leaves (w : Work Unit) (s : State) : State :=
  match w.run s with
  | .ok _ t => t
  | .error _ t => t

/-- The state after some events, if all goes on after a refusal with what the event has left. -/
def leftBy {ν : Type} [Inspect ν] (source : String) (s : State) (es : List (Event ν)) : State :=
  es.foldl (fun s e => (Work.takeIn source e).leaves s) s

section Left

variable {ν : Type} [Inspect ν] {source : String} {s : State}

theorem leaves_takeIn (e : Event ν) :
    (Work.takeIn source e).leaves s =
      match s.feed source e with
      | .ok t => t
      | .error _ => s := by
  rw [Work.leaves, Work.run_takeIn]
  cases s.feed source e <;> rfl

theorem leftBy_cons_of_error {e : Event ν} {f : Fault} (h : s.feed source e = .error f)
    (es : List (Event ν)) : leftBy source s (e :: es) = leftBy source s es := by
  rw [leftBy, List.foldl_cons, leaves_takeIn, h]
  rfl

/-- Without a refusal, the events leave what a run leaves. -/
theorem leftBy_of_feedAll {es : List (Event ν)} {u : State}
    (h : feedAll source s es = ⟨u, none⟩) : leftBy source s es = u := by
  induction es generalizing s with
  | nil => exact congrArg Outcome.state h
  | cons e es ih =>
    obtain ⟨t, ht, hr⟩ := feedAll_cons_iff.mp h
    rw [← ih hr, leftBy, List.foldl_cons, leaves_takeIn, ht]
    rfl

end Left

/-- What is to be said of an event of a recording that comes after the events `pre`. -/
structure RefusedCleanly (source : String) (s : State) (pre : List (Event Node)) (e : Event Node) :
    Prop where
  /-- A fault comes up in the listed cases only, and it leaves the state as it was. -/
  exact : ∀ f t, (Work.takeIn source e).run (leftBy source s pre) = .error f t ↔
    Refuses source (leftBy source s pre) e f ∧ t = leftBy source s pre
  /-- In all other cases the event has its effect. -/
  taken : ∀ t, (Work.takeIn source e).run (leftBy source s pre) = .ok () t ↔
    (leftBy source s pre).feed source e = .ok t
  /-- All goes on as if a refused event had not come. -/
  skipped : ∀ f, Refuses source (leftBy source s pre) e f → ∀ post,
    leftBy source s (pre ++ e :: post) = leftBy source s (pre ++ post)
  /-- The document is that of the stream without the event. -/
  document : ∀ f, Refuses source (leftBy source s pre) e f → ∀ post u,
    feedAll source s (pre ++ post) = ⟨u, none⟩ →
      (leftBy source s (pre ++ e :: post)).finish = u.finish

theorem leftBy_append {ν : Type} [Inspect ν] (source : String) (s : State)
    (es fs : List (Event ν)) :
    leftBy source s (es ++ fs) = leftBy source (leftBy source s es) fs :=
  List.foldl_append

/-- In every state, whatever events and refusals have led to it, an event of a recording is refused
exactly in the listed cases, and then nothing has happened. -/
theorem refusals_exact (source : String) (s : State) (pre : List (Event Node)) (e : Event Node) :
    RefusedCleanly source s pre e := by
  have hskip (f : Fault) (hf : Refuses source (leftBy source s pre) e f)
      (post : List (Event Node)) :
      leftBy source s (pre ++ e :: post) = leftBy source s (pre ++ post) := by
    rw [leftBy_append, leftBy_append, leftBy_cons_of_error (feed_eq_error_iff.mpr hf)]
  refine ⟨?_, ?_, hskip, ?_⟩
  · intro f t
    rw [Work.run_takeIn_eq_error_iff, feed_eq_error_iff]
  · intro t
    rw [Work.run_takeIn]
    cases (leftBy source s pre).feed source e <;> simp [Work.allOrNothing]
  · intro f hf post u hu
    rw [hskip f hf post, leftBy_of_feedAll hu]

/-! ### A type that cannot be read -/

/-- The range from many zeros to one. -/
def zeros (n : Nat) : List Char := '[' :: (List.replicate n '0' ++ [':', '0', ']'])

theorem packedWidth_zeros {n : Nat} (h : Text.digitLimit < n) :
    packedWidth (zeros n) = .error ⟨n⟩ := by
  let msb : Width.Numeral := ⟨false, List.replicate n '0'⟩
  let lsb : Width.Numeral := ⟨false, ['0']⟩
  have hmsb : msb.Proper := by
    refine ⟨fun hnil => ?_, fun c hc => ?_⟩
    · have hn : n = 0 := by simpa [msb] using hnil
      omega
    · rw [List.eq_of_mem_replicate hc]
      decide
  have hlsb : lsb.Proper := ⟨by decide, List.forall_mem_singleton.mpr (by decide)⟩
  have hlong : ¬ msb.Fits := by simpa [msb, Width.Numeral.Fits] using h
  have hrange : Width.IsRange (zeros n) msb lsb := by
    simpa [zeros, msb, lsb, Width.Numeral.chars, Width.Numeral.sign] using
      Width.isRange_append (.tight hmsb hlsb) (List.not_mem_nil (a := '[')) List.not_mem_nil
  rw [packedWidth_of_isRange hrange, if_neg hlong, List.length_replicate]

theorem text?_zeros (n : Nat) :
    (Value.str (String.ofList (zeros n))).text? = some (String.ofList (zeros n)) := by
  have hstart : Text.trimStart (zeros n) = zeros n :=
    Text.trimStart_cons_of_not_blank (by decide) _
  have hend : Text.trimEnd (zeros n) = zeros n := by
    have hc := Text.trimEnd_concat_of_not_blank (c := ']') (by decide)
      ('[' :: (List.replicate n '0' ++ [':', '0']))
    simpa [zeros] using hc
  have hne : String.ofList (zeros n) ≠ "" := by simp [zeros, String.ofList_eq_empty_iff]
  simp [Value.text?, Value.text, Text.trimmed, Text.trim, hstart, hend, Text.nonempty?, hne]

/-- A signal with that range. -/
def zerosSignal : Event Node :=
  .enter .signalDeclaration
    { declaration := some
        { type := .str (String.ofList (zeros 4301)), declarators := [{ name := .str "s" }] } }

/-- An open module in which something waits. -/
def heldSample : List (Event Node) :=
  Recording.build [.enterModule (.str "m"), .comment (.str "/** text\n@note kept */")]

theorem refusals_exact_zerosSignal :
    Refuses "" (leftBy "" (.initial "m.sv" true) heldSample) zerosSignal (.overlong ⟨4301⟩) ∧
      Refuses "" (leftBy "" (.initial "m.sv" true) heldSample) ⟨.enter, .task, none⟩
        (.missingIdentifier .task "") ∧
      Refuses "" (leftBy "" (.initial "m.sv" true) heldSample) (.enter .comment { text := .int 3 })
        (.unanswered .text) ∧
      (leftBy "" (.initial "m.sv" true) (heldSample ++ zerosSignal ::
          Recording.build [.signal [.str "s"] .null [], .leaveModule])).finish =
        (feedAll "" (.initial "m.sv" true) (heldSample ++
          Recording.build [.signal [.str "s"] .null [], .leaveModule])).state.finish := by
  have hzeros : Refuses "" (leftBy "" (.initial "m.sv" true) heldSample) zerosSignal
      (.overlong ⟨4301⟩) := by
    refine .overlong rfl (by simp) (by decide) (text?_zeros 4301) ?_
    rw [String.toList_ofList]
    exact packedWidth_zeros (by decide)
  exact ⟨hzeros, .unnamed .task (by simp), .textless (by simp),
    (refusals_exact "" (.initial "m.sv" true) heldSample zerosSignal).document _ hzeros _ _
      (Outcome.eq_of_fault (by decide))⟩

end DesignDoc.Assembly
