import DesignDoc.Proofs.Assembly.Stages

/-! What strict assembly reports. Complaints arise when something is closed: the scopes of a stream
one after the other, those that it leaves open innermost first, and the file at last. The
diagnostics of a run are the complaints about these closings, in this order. -/

namespace DesignDoc.Assembly

open DesignDoc.Annotation DesignDoc.Document DesignDoc.Event DesignDoc.Json

/-! ### Closings -/

/-- Something that is closed, with all items that have come to it. -/
inductive Closing where
  /-- A module or a routine, and whether it is a module or stands in one. -/
  | scope (e : Element) (inModule : Bool)
  | file (f : File)
  deriving DecidableEq, Repr

namespace Closing

def title : Closing → String
  | scope e _ => e.title
  | file f => f.title

/-- What is declared in it, with the items. The file declares nothing. -/
def body : Closing → Body
  | scope e _ => e.body
  | file f => { items := f.items }

def reports (c : Closing) : List Diagnostic := (bodyComplaints c.body).map (⟨·, c.title⟩)

end Closing

def State.fileClosing (s : State) : Closing :=
  .file { s.file with items := s.file.items ++ s.filePending }

variable {ν : Type} [Inspect ν] {source : String}

/-- The scope that an event closes. -/
def Stage.closing? (x : Stage ν) : Option Closing :=
  match x.effect with
  | .closes a => some (.scope a.settled x.state.inModule)
  | .parameters | .signals _ | .none => none

theorem Stage.closing?_of_none {x : Stage ν} (h : x.effect = .none) : x.closing? = none := by
  simp [closing?, h]

theorem Stage.effect_of_closing? {x : Stage ν} {e : Element} {b : Bool}
    (h : x.closing? = some (.scope e b)) :
    ∃ a, x.effect = .closes a ∧ e = a.settled ∧ b = decide x.state.inModule := by
  unfold closing? at h
  split at h
  · next a ha =>
    cases h
    exact ⟨a, ha, rfl, rfl⟩
  all_goals cases h

/-- All that is closed in a stream, in order: scopes by its events, the scopes that it leaves open,
and the file. -/
def closingsOf (source : String) (s : State) (es : List (Event ν)) : List Closing :=
  let u := (feedAll source s es).state
  (stages source s (es ++ u.ends)).filterMap Stage.closing? ++ [u.closeAll.fileClosing]

theorem closingsOf_eq {s u : State} {es : List (Event ν)} (h : feedAll source s es = ⟨u, none⟩) :
    closingsOf source s es =
      (stages source s (es ++ u.ends)).filterMap Stage.closing? ++ [u.closeAll.fileClosing] := by
  simp [closingsOf, h]

/-! ### Records -/

section Records

variable {s u : State} {es : List (Event ν)}

/-- The record of a scope that is closed in a module is in the file from then on. -/
theorem filed_of_closes {x : Stage ν} {a : Scope} (h : feedAll source s es = ⟨u, none⟩)
    (hx : x ∈ stages source s es) (he : x.effect = .closes a) (hm : x.state.inModule) :
    Filed u.closeAll.file a.settled.associate := by
  obtain ⟨pre, post, rfl, hpre⟩ := exists_of_mem_stages h hx
  rw [feedAll_append hpre] at h
  obtain ⟨t, ht, hpost⟩ := feedAll_cons_iff.mp h
  obtain ⟨rest, hs, rfl⟩ := closeTop_of_effect (step_of_feed ht) he
  have hp := passes_following hpost
  cases hr : a.settled.associate with
  | module m => exact hp.mem_modules hs hr
  | routine r =>
    have hrec : x.state.record? = some (.routine r) := by rw [State.record?_of_scopes hs, hr]
    obtain ⟨b, hb, hbm, hbt⟩ := exists_mem_addTask r ((State.inModule_of_routine hs hr).mp hm)
    rw [← (State.closeTop_routine hs hrec).1] at hb
    obtain ⟨m, hmem, ht⟩ := hp.exists_module u.scopes_closeAll hb hbm
    exact ⟨m, hmem, ht.subset hbt⟩

/-- What is closed in a module is in the finished file, with its items distributed. -/
theorem filed_of_mem_closingsOf {name : String} {strict : Bool} {e : Element}
    (h : feedAll source (.initial name strict) es = ⟨u, none⟩)
    (he : .scope e true ∈ closingsOf source (.initial name strict) es) :
    Filed u.finish.file e.associate ∧ e.associate.body = associateBody e.body := by
  refine ⟨?_, by cases e <;> rfl⟩
  have hu : u.Running := running_of_run h (State.running_initial name strict)
  rw [closingsOf_eq h, List.mem_append, List.mem_filterMap] at he
  obtain ⟨x, hx, hc⟩ | hc := he
  · obtain ⟨a, ha, rfl, hm⟩ := Stage.effect_of_closing? hc
    have hf := filed_of_closes (feedAll_append_ends h) hx ha (of_decide_eq_true hm.symm)
    rw [State.closeAll_eq_self u.scopes_closeAll] at hf
    cases hr : a.settled.associate <;> simpa [Filed, hr, hu.modules_finish] using hf
  · cases List.mem_singleton.mp hc

end Records

/-! ### Diagnostics -/

namespace State

variable (s : State)

@[simp] theorem strict_setPending (items : List Item) :
    (s.setPending items).strict = s.strict := by
  unfold setPending
  split <;> rfl

@[simp] theorem strict_mapOwner (f : Body → Body) : (s.mapOwner f).strict = s.strict := by
  unfold mapOwner
  split <;> rfl

@[simp] theorem diagnostics_setPending (items : List Item) :
    (s.setPending items).diagnostics = s.diagnostics := by
  unfold setPending
  split <;> rfl

@[simp] theorem diagnostics_mapOwner (f : Body → Body) :
    (s.mapOwner f).diagnostics = s.diagnostics := by
  unfold mapOwner
  split <;> rfl

@[simp] theorem strict_report (scope : String) (cs : List Complaint) :
    (s.report scope cs).strict = s.strict := by
  unfold report
  split <;> rfl

theorem diagnostics_report (scope : String) (cs : List Complaint) :
    (s.report scope cs).diagnostics =
      s.diagnostics ++ if s.strict then cs.map (⟨·, scope⟩) else [] := by
  unfold report
  split <;> simp

@[simp] theorem strict_place (e : Element) : (s.place e).strict = s.strict := by
  cases e <;> rfl

@[simp] theorem diagnostics_place (e : Element) : (s.place e).diagnostics = s.diagnostics := by
  cases e <;> rfl

end State

section Diagnostics

variable {s t : State} {e : Event ν} {es : List (Event ν)}

/-- A step adds the complaints about the scope that it closes. -/
theorem diagnostics_of_step (h : Step s e t) :
    t.strict = s.strict ∧ t.diagnostics = s.diagnostics ++
      if s.strict then (⟨s, e⟩ : Stage ν).closing?.toList.flatMap Closing.reports else [] := by
  cases h with
  | comment => simp [Stage.closing?, Stage.effect]
  | opens k => simp [Stage.closing?_of_none (effect_enter k), State.push]
  | @closes k n top rest htop hk =>
    have hc : (⟨s, ⟨.leave, k.kind, n⟩⟩ : Stage ν).closing? =
        some (.scope top.settled s.inModule) := by
      rw [Stage.closing?, effect_closes htop hk]
    rw [hc]
    simp [State.closeTop, htop, State.diagnostics_report, Closing.reports, Closing.title,
      Closing.body]
  | ignores k n hn => simp [Stage.closing?_of_none (effect_ignores hn)]
  | ports hk => simp [Stage.closing?_of_none (effect_ports hk), State.addPorts]
  | parameters => simp [Stage.closing?, Stage.effect, State.addParameters]
  | signals hd ht =>
    obtain ⟨width, -, rfl⟩ := addSignals_eq_ok.mp ht
    simp [Stage.closing?, effect_signals hd]
  | idle hi => simp [Stage.closing?_of_none (effect_idle hi)]

theorem diagnostics_of_run (h : feedAll source s es = ⟨t, none⟩) :
    t.strict = s.strict ∧ t.diagnostics = s.diagnostics ++
      if s.strict then ((stages source s es).filterMap Stage.closing?).flatMap Closing.reports
      else [] := by
  induction es generalizing s with
  | nil =>
    obtain rfl : s = t := congrArg Outcome.state h
    simp [stages]
  | cons e es ih =>
    obtain ⟨a, ha, hr⟩ := feedAll_cons_iff.mp h
    obtain ⟨hs₁, hd₁⟩ := diagnostics_of_step (step_of_feed ha)
    obtain ⟨hs₂, hd₂⟩ := ih hr
    refine ⟨hs₂.trans hs₁, ?_⟩
    rw [hd₂, hd₁, hs₁, stages_cons ha, List.filterMap_cons]
    cases hc : (⟨s, e⟩ : Stage ν).closing? <;> cases s.strict <;> simp

/-- The diagnostics of a strict run are the complaints about all that is closed. -/
theorem diagnostics_finish {name : String} {u : State}
    (h : feedAll source (.initial name true) es = ⟨u, none⟩) :
    u.finish.diagnostics =
      (closingsOf source (.initial name true) es).flatMap Closing.reports := by
  have hu : u.Running := running_of_run h (State.running_initial name true)
  have hstrict : u.closeAll.strict = true := (diagnostics_of_run (feedAll_append_ends h)).1
  have hd : u.closeAll.diagnostics = ((stages source (.initial name true)
      (es ++ u.ends)).filterMap Stage.closing?).flatMap Closing.reports :=
    (diagnostics_of_run (feedAll_append_ends h)).2
  have hf : u.closeAll.fileClosing.reports = (fileComplaints { u.closeAll.file with
      items := u.closeAll.file.items ++ u.closeAll.filePending }).map
        (⟨·, u.closeAll.file.title⟩) := rfl
  rw [closingsOf_eq h, List.flatMap_append, ← hd, List.flatMap_singleton, hf, State.finish,
    hu.finished]
  simp [State.closeFile, State.diagnostics_report, hstrict, File.title]

end Diagnostics

end DesignDoc.Assembly
