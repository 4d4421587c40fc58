import DesignDoc.Proofs.Assembly.Closing

/-! Where items wait. Every scope has a buffer and so has the file, but a construct that is opened
takes what waits around it, and one that is closed takes what waits in it. So at any time only the
innermost buffer can hold items, and when all scopes are closed at the end the file keeps what
waits in it. -/

namespace DesignDoc.Assembly

open DesignDoc.Annotation DesignDoc.Document DesignDoc.Event DesignDoc.Json

namespace State

/-- The items that wait in the open scopes, innermost first, and in the file. -/
def buffers (s : State) : List (List Item) := s.scopes.map (·.pending) ++ [s.filePending]

variable {s : State} {top : Scope} {rest : List Scope}

theorem buffers_eq (s : State) : s.buffers = s.pending :: s.buffers.tail := by
  unfold pending
  split <;> simp [buffers, *]

theorem buffers_of_scopes (h : s.scopes = top :: rest) :
    s.buffers.tail = rest.map (·.pending) ++ [s.filePending] := by
  simp [buffers, h]

@[simp] theorem buffers_setPending (items : List Item) :
    (s.setPending items).buffers = items :: s.buffers.tail := by
  unfold setPending
  split <;> simp [buffers, *]

@[simp] theorem buffers_mapOwner (f : Body → Body) : (s.mapOwner f).buffers = s.buffers := by
  unfold mapOwner
  split <;> simp [buffers, *]

@[simp] theorem buffers_push (e : Element) :
    (s.push e).buffers = [] :: [] :: s.buffers.tail := by
  rw [← buffers_setPending []]
  rfl

theorem map_pending_addTask (r : Routine) (scopes : List Scope) :
    (addTask r scopes).map (·.pending) = scopes.map (·.pending) := by
  induction scopes with
  | nil => rfl
  | cons scope scopes ih =>
    obtain ⟨e, pending⟩ := scope
    cases e with
    | module m => rfl
    | routine q => simp [addTask, ih]

theorem buffers_closeTop (h : s.scopes = top :: rest) : s.closeTop.buffers = s.buffers.tail := by
  rw [buffers_of_scopes h]
  obtain ⟨m, hs, -⟩ | ⟨r, hs, -⟩ := closeTop_cases h
  · rw [buffers, hs, filePending_closeTop]
  · rw [buffers, hs, filePending_closeTop, map_pending_addTask]

theorem pending_of_buffers {b : List Item} {bs : List (List Item)} (h : s.buffers = b :: bs) :
    s.pending = b :=
  (List.cons.inj (s.buffers_eq.symm.trans h)).1

@[simp] theorem pending_mapOwner (f : Body → Body) : (s.mapOwner f).pending = s.pending :=
  pending_of_buffers ((buffers_mapOwner f).trans s.buffers_eq)

@[simp] theorem pending_push (e : Element) : (s.push e).pending = [] :=
  pending_of_buffers (buffers_push e)

/-! ### While events come in -/

/-- What holds of the assembler until it is finished: only the innermost buffer can hold items, and
the file itself holds none. -/
structure Running (s : State) : Prop where
  quiet : ∀ b ∈ s.buffers.tail, b = []
  items : s.file.items = []
  finished : s.finished = false

theorem running_initial (name : String) (strict : Bool) : Running (initial name strict) :=
  ⟨by simp [initial, buffers], rfl, rfl⟩

/-- After a scope is closed nothing waits in the scope around it. -/
theorem Running.pending_closeTop (h : Running s) (hs : s.scopes = top :: rest) :
    s.closeTop.pending = [] := by
  have hb : s.closeTop.pending ∈ s.closeTop.buffers := by
    rw [buffers_eq]
    exact List.mem_cons_self
  rw [buffers_closeTop hs] at hb
  exact h.quiet _ hb

theorem Running.closeTop (h : Running s) (hs : s.scopes = top :: rest) : Running s.closeTop where
  quiet b hb := by
    rw [buffers_closeTop hs] at hb
    exact h.quiet b (List.mem_of_mem_tail hb)
  items := by
    obtain ⟨ms, hf⟩ := s.file_closeTop
    rw [hf]
    exact h.items
  finished := (finished_closeTop s).trans h.finished

theorem Running.setPending (h : Running s) (items : List Item) : Running (s.setPending items) :=
  ⟨by simpa using h.quiet, by simpa using h.items, by simpa using h.finished⟩

theorem Running.mapOwner (h : Running s) (f : Body → Body) : Running (s.mapOwner f) :=
  ⟨by simpa using h.quiet, by simpa using h.items, by simpa using h.finished⟩

theorem Running.push (h : Running s) (e : Element) : Running (s.push e) where
  quiet := by simpa using h.quiet
  items := by simpa using h.items
  finished := (finished_setPending s []).trans h.finished

end State

variable {ν : Type} [Inspect ν] {source : String}

theorem running_of_step {s t : State} {e : Event ν} (h : Step s e t) (hs : s.Running) :
    t.Running := by
  cases h with
  | comment => exact hs.setPending _
  | opens => exact hs.push _
  | closes _ _ htop => exact hs.closeTop htop
  | ignores => exact hs
  | ports => exact hs.mapOwner _
  | parameters => exact (hs.mapOwner _).setPending _
  | signals _ ht =>
    obtain ⟨width, -, rfl⟩ := addSignals_eq_ok.mp ht
    exact (hs.mapOwner _).setPending _
  | idle => exact hs

theorem running_of_run {s t : State} {es : List (Event ν)} (h : feedAll source s es = ⟨t, none⟩)
    (hs : s.Running) : t.Running :=
  feedAll_invariant (fun he => running_of_step (step_of_feed he)) h hs

/-! ### Finishing -/

namespace State

variable {s : State}

/-- What closing a scope keeps, closing all of them keeps. -/
theorem closeAll_invariant {p : State → Prop} (step : ∀ a, p a → p a.closeTop) (hs : p s) :
    p s.closeAll := by
  have h : ∀ n, p (Nat.repeat State.closeTop n s) := by
    intro n
    induction n with
    | zero => exact hs
    | succ n ih => exact step _ ih
  exact h s.depth

/-- The file takes what waits in it, and nothing else. -/
theorem Running.items_closeAll (h : s.Running) :
    s.closeAll.file.items ++ s.closeAll.filePending = s.filePending := by
  refine closeAll_invariant (p := fun a => a.file.items ++ a.filePending = s.filePending) ?_ ?_
  · intro a ha
    obtain ⟨ms, hf⟩ := a.file_closeTop
    rw [hf, filePending_closeTop]
    exact ha
  · rw [h.items, List.nil_append]

theorem Running.summary_finish (h : s.Running) :
    s.finish.file.summary = joinedSummary s.filePending := by
  rw [← h.items_closeAll]
  simp [finish, h.finished, closeFile, associateFile]

theorem Running.modules_finish (h : s.Running) :
    s.finish.file.modules = s.closeAll.file.modules := by
  simp [finish, h.finished, closeFile, associateFile]

end State

end DesignDoc.Assembly
