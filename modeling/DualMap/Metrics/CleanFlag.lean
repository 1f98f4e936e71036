import DualMap.Metrics.MetricsStore

/-!
# What a Clean Flag Says about the File

Tasks that insert, update and save metrics run under an event loop. When no save is in
progress and the flag is clean, the file should hold the rows of the store.

`save_cache` puts the content together before it opens the file and clears the flag after it
closed it. An update that comes in between sets the flag, the save clears it, and the file
never gets the new row. As long as the rows to be written stay the same while a save is in
progress, the file is right: every save in progress then writes the same content, and the one
that clears the flag has written it.

A task is always in one of seven phases (`Phase`), and what holds of the store at any time is
a property of the phases of all tasks (`Faithful`).
-/

namespace DualMap.Metrics

open Relation

namespace MetricsStore

variable {α : Type} [DecidableEq α] (text : α → String)

/-! ## States of the event loop -/

/-- The tasks that come up. -/
inductive Call : Unit × Coro (Unit × MetricsStore α) Unit → Prop where
  | insertMetrics (data : OrderedDict String α) : Call ((), insertMetrics data)
  | updateMetrics (requestId : α) (updates : OrderedDict String α) :
      Call ((), updateMetrics requestId updates)
  | saveCache : Call ((), saveCache text)
  | syncCache : Call ((), syncCache text)

/-- A `save_cache` between its decision to save and its end. -/
inductive InProgress : Coro (Unit × MetricsStore α) Unit → Prop where
  | opening (content : String) : InProgress (openFile content)
  | writing (content : String) : InProgress (writeFile content)
  | closing : InProgress clearDirty

/-- No task of the event loop is a save in progress. -/
def NoSave (p : Pool Unit (MetricsStore α)) : Prop :=
  ∀ t ∈ p.tasks, ¬ InProgress t.2

/-- The file holds the rows of the store. -/
def WrittenBack (store : MetricsStore α) : Prop :=
  ∃ content, csvContent text store.dataCache = .ok content ∧ store.csvFile = some content

/-- With no save in progress and the flag clean, the file holds the rows of the store, if
there are any: rows are never taken out, so there are some from the first change on. -/
def Clean (p : Pool Unit (MetricsStore α)) : Prop :=
  NoSave p → p.shared.dirty = false → p.shared.dataCache.keys ≠ [] →
    WrittenBack text p.shared

/-- A step that leaves the rows to be written as they are, or comes when no save is in
progress. -/
def Quiet (p p' : Pool Unit (MetricsStore α)) : Prop :=
  csvContent text p'.shared.dataCache = csvContent text p.shared.dataCache ∨ NoSave p

/-! ## Phases of a task -/

/-- Where a task stands. -/
inductive Phase (α : Type) where
  | inserting (data : OrderedDict String α)
  | updating (requestId : α) (updates : OrderedDict String α)
  | saving
  | opening (content : String)
  | writing (content : String)
  | closing (content : String)
  | done

namespace Phase

/-- What is left to run of a task. -/
def code : Phase α → Coro (Unit × MetricsStore α) Unit
  | inserting data => insertMetrics data
  | updating requestId updates => updateMetrics requestId updates
  | saving => saveCache text
  | opening content => openFile content
  | writing content => writeFile content
  | closing _ => clearDirty
  | done => .ret ()

/-- What a save in progress writes. -/
def content? : Phase α → Option String
  | opening content | writing content | closing content => some content
  | _ => none

/-- The phase after the next step. -/
def next (store : MetricsStore α) : Phase α → Phase α
  | saving =>
    if store.dirty then
      match csvContent text store.dataCache with
      | .ok content => opening content
      | .error _ => done
    else done
  | opening content => writing content
  | writing content => closing content
  | _ => done

/-- What the next step does to the store. -/
def effect (store : MetricsStore α) : Phase α → MetricsStore α
  | inserting data => store.insertRow data
  | updating requestId updates => store.updateRow requestId updates
  | opening _ => { store with csvFile := some "" }
  | writing content => { store with csvFile := some content }
  | closing _ => { store with dirty := false }
  | _ => store

/-- A step of a task takes it to its next phase. -/
theorem resume_code (ph : Phase α) (store : MetricsStore α) :
    (ph.code text).resume ((), store) =
      ((ph.next text store).code text, ((), ph.effect store)) := by
  cases ph with
  | saving =>
    simp only [code, next, effect, saveCache]
    -- nothing to save, or rows that cannot be written, or the file is going to be opened
    by_cases hdirty : store.dirty = true
    · cases hcontent : csvContent text store.dataCache with
      | error e => simp [Coro.resume, Coro.shared, Coro.act, hdirty, hcontent]
      | ok content =>
        simp [Coro.resume, Coro.shared, Coro.act, Coro.suspend, hdirty, hcontent]
    · simp [Coro.resume, Coro.shared, Coro.act, hdirty]
  | _ => rfl

omit [DecidableEq α] in
theorem next_saving {store : MetricsStore α} {content : String} (hdirty : store.dirty = true)
    (hcontent : csvContent text store.dataCache = .ok content) :
    saving.next text store = opening content := by
  simp only [next, hdirty, hcontent, if_true]

end Phase

/-! ## The invariant -/

/-- What holds of the store while the tasks are in the given phases. -/
structure Faithful (store : MetricsStore α) (phases : List (Phase α)) : Prop where
  /-- Every save in progress writes the rows as they are now. -/
  current : ∀ ph ∈ phases, ∀ content, ph.content? = some content →
    csvContent text store.dataCache = .ok content
  /-- Between writing and closing the file is right, unless another save has emptied it and
  has yet to write it. -/
  written : (∃ content, .closing content ∈ phases) → (∀ content, .writing content ∉ phases) →
    WrittenBack text store
  clean : (∀ ph ∈ phases, ph.content? = none) → store.dirty = false →
    store.dataCache.keys ≠ [] → WrittenBack text store

namespace Faithful

omit [DecidableEq α]

variable {text} {store : MetricsStore α} {rest : List (Phase α)}

/-- Only which phases there are matters. -/
theorem perm {phases phases' : List (Phase α)} (h : Faithful text store phases)
    (hperm : phases.Perm phases') : Faithful text store phases' where
  current ph hph := h.current ph (hperm.mem_iff.mpr hph)
  written := by
    rintro ⟨content, hclosing⟩ hwriting
    exact h.written ⟨content, hperm.mem_iff.mpr hclosing⟩
      (fun c hc => hwriting c (hperm.mem_iff.mp hc))
  clean hnone := h.clean (fun ph hph => hnone ph (hperm.mem_iff.mp hph))

/-- A task that is no save in progress does not count. -/
theorem cons_iff {ph : Phase α} (hph : ph.content? = none) :
    Faithful text store (ph :: rest) ↔ Faithful text store rest := by
  -- the phase is neither closing nor writing
  have hclosing (content : String) : .closing content ∈ ph :: rest ↔ .closing content ∈ rest := by
    cases ph <;> simp_all [Phase.content?]
  have hwriting (content : String) : .writing content ∈ ph :: rest ↔ .writing content ∈ rest := by
    cases ph <;> simp_all [Phase.content?]
  constructor
  · intro h
    refine ⟨fun q hq => h.current q (List.mem_cons_of_mem _ hq), ?_, ?_⟩
    · simpa only [hclosing, hwriting] using h.written
    · intro hnone
      exact h.clean (List.forall_mem_cons.mpr ⟨hph, hnone⟩)
  · intro h
    refine ⟨?_, ?_, fun hnone => h.clean (List.forall_mem_cons.mp hnone).2⟩
    · intro q hq content hcontent
      rcases List.mem_cons.mp hq with rfl | hq
      · rw [hph] at hcontent
        cases hcontent
      · exact h.current q hq content hcontent
    · simpa only [hclosing, hwriting] using h.written

/-- An insertion or an update: either nothing changes or the flag is set. -/
theorem edit (h : Faithful text store rest) {store' : MetricsStore α}
    (hfile : store'.csvFile = store.csvFile) (hedit : store' = store ∨ store'.dirty = true)
    (hquiet : csvContent text store'.dataCache = csvContent text store.dataCache ∨
      ∀ ph ∈ rest, ph.content? = none) :
    Faithful text store' rest := by
  rcases hedit with rfl | hdirty
  · exact h
  · -- the clean flag is no longer there to say anything
    have hclean : ¬ store'.dirty = false := by simp [hdirty]
    rcases hquiet with hsame | hnone
    · refine ⟨?_, ?_, fun _ hd => absurd hd hclean⟩
      · rw [hsame]
        exact h.current
      · rw [WrittenBack, hsame, hfile]
        exact h.written
    · refine ⟨?_, ?_, fun _ hd => absurd hd hclean⟩
      · intro ph hph content hcontent
        rw [hnone ph hph] at hcontent
        cases hcontent
      · rintro ⟨content, hclosing⟩
        cases hnone _ hclosing

/-- A save begins: its content is what the rows are now. -/
theorem begin (h : Faithful text store rest) {content : String}
    (hcontent : csvContent text store.dataCache = .ok content) :
    Faithful text store (.opening content :: rest) where
  current ph hph c hc := by
    rcases List.mem_cons.mp hph with rfl | hph
    · cases hc
      exact hcontent
    · exact h.current ph hph c hc
  written := by simpa using h.written
  clean hnone := by cases hnone _ List.mem_cons_self

/-- A save opens the file, and has yet to write it. -/
theorem openFile {content : String} (h : Faithful text store (.opening content :: rest)) :
    Faithful text { store with csvFile := some "" } (.writing content :: rest) where
  current ph hph c hc := by
    rcases List.mem_cons.mp hph with rfl | hph
    · exact h.current (.opening content) List.mem_cons_self c hc
    · exact h.current ph (List.mem_cons_of_mem _ hph) c hc
  written _ hwriting := absurd List.mem_cons_self (hwriting content)
  clean hnone := by cases hnone _ List.mem_cons_self

/-- A save writes the file: the rows are still those it began with. -/
theorem writeFile {content : String} (h : Faithful text store (.writing content :: rest)) :
    Faithful text { store with csvFile := some content } (.closing content :: rest) where
  current ph hph c hc := by
    rcases List.mem_cons.mp hph with rfl | hph
    · exact h.current (.writing content) List.mem_cons_self c hc
    · exact h.current ph (List.mem_cons_of_mem _ hph) c hc
  written _ _ := ⟨content, h.current (.writing content) List.mem_cons_self content rfl, rfl⟩
  clean hnone := by cases hnone _ List.mem_cons_self

/-- A save ends. It has written the file, and so has every save that emptied it since. -/
theorem clearDirty {content : String} (h : Faithful text store (.closing content :: rest)) :
    Faithful text { store with dirty := false } rest where
  current ph hph := h.current ph (List.mem_cons_of_mem _ hph)
  written hclosing hwriting := by
    obtain ⟨c, hc⟩ := hclosing
    refine h.written ⟨c, List.mem_cons_of_mem _ hc⟩ ?_
    simpa using hwriting
  clean hnone _ _ := by
    refine h.written ⟨content, List.mem_cons_self⟩ ?_
    intro c hc
    rcases List.mem_cons.mp hc with hc | hc
    · cases hc
    · cases hnone _ hc

end Faithful

/-! ## A step of the event loop -/

theorem insertRow_edits (data : OrderedDict String α) (store : MetricsStore α) :
    (store.insertRow data).csvFile = store.csvFile ∧
      (store.insertRow data = store ∨ (store.insertRow data).dirty = true) := by
  unfold insertRow
  cases data.get? "request_id" with
  | none => exact ⟨rfl, .inl rfl⟩
  | some requestId => exact ⟨rfl, .inr rfl⟩

theorem updateRow_edits (requestId : α) (updates : OrderedDict String α)
    (store : MetricsStore α) :
    (store.updateRow requestId updates).csvFile = store.csvFile ∧
      (store.updateRow requestId updates = store ∨
        (store.updateRow requestId updates).dirty = true) := by
  unfold updateRow
  cases store.dataCache.get? requestId with
  | none => exact ⟨rfl, .inl rfl⟩
  | some row => exact ⟨rfl, .inr rfl⟩

/-- A quiet step of one task. -/
theorem Faithful.next {store : MetricsStore α} {ph : Phase α} {rest : List (Phase α)}
    (h : Faithful text store (ph :: rest))
    (hquiet : csvContent text (ph.effect store).dataCache = csvContent text store.dataCache ∨
      ∀ q ∈ rest, q.content? = none) :
    Faithful text (ph.effect store) (ph.next text store :: rest) := by
  -- editing sets the flag, opening and writing follow the content, closing clears the flag
  cases ph with
  | inserting data =>
    obtain ⟨hfile, hedit⟩ := insertRow_edits data store
    exact (Faithful.cons_iff rfl).mpr (((Faithful.cons_iff rfl).mp h).edit hfile hedit hquiet)
  | updating requestId updates =>
    obtain ⟨hfile, hedit⟩ := updateRow_edits requestId updates store
    exact (Faithful.cons_iff rfl).mpr (((Faithful.cons_iff rfl).mp h).edit hfile hedit hquiet)
  | saving =>
    have hrest : Faithful text store rest := (Faithful.cons_iff rfl).mp h
    simp only [Phase.next, Phase.effect]
    split
    · split
      · rename_i content hcontent
        exact hrest.begin hcontent
      · exact (Faithful.cons_iff rfl).mpr hrest
    · exact (Faithful.cons_iff rfl).mpr hrest
  | opening content => exact h.openFile
  | writing content => exact h.writeFile
  | closing content => exact (Faithful.cons_iff rfl).mpr h.clearDirty
  | done => exact h

/-- An event loop with a task in each of the phases. -/
def inPhases (store : MetricsStore α) (phases : List (Phase α)) : Pool Unit (MetricsStore α) :=
  ⟨store, phases.map (fun ph => ((), ph.code text))⟩

theorem step_inPhases (store : MetricsStore α) (before after : List (Phase α)) (ph : Phase α) :
    Pool.Step (Call text) (inPhases text store (before ++ ph :: after))
      (inPhases text (ph.effect store) (before ++ ph.next text store :: after)) := by
  let tasks := List.map (fun q => ((), Phase.code text q))
  have hstep : Pool.Step (Call text) ⟨store, tasks before ++ ((), ph.code text) :: tasks after⟩
      _ := .resume store _ _ () (ph.code text)
  rw [Phase.resume_code] at hstep
  simpa [inPhases, tasks] using hstep

omit [DecidableEq α] in
/-- A save in progress changes the file or takes the flag back, in some store. -/
theorem InProgress.changes {c : Coro (Unit × MetricsStore α) Unit} (h : InProgress c) :
    ∃ store, (c.resume ((), store)).2.2.csvFile ≠ store.csvFile ∨
      store.dirty = true ∧ (c.resume ((), store)).2.2.dirty = false := by
  cases h with
  | opening content => exact ⟨⟨.empty, true, none⟩, .inl (Option.some_ne_none "")⟩
  | writing content => exact ⟨⟨.empty, true, none⟩, .inl (Option.some_ne_none content)⟩
  | closing => exact ⟨⟨.empty, true, none⟩, .inr ⟨rfl, rfl⟩⟩

theorem inProgress_code_iff {ph : Phase α} : InProgress (ph.code text) ↔ ph.content? ≠ none := by
  constructor
  · intro h hnone
    obtain ⟨store, hchange⟩ := h.changes
    rw [Phase.resume_code] at hchange
    -- insertions and updates set the flag and leave the file alone
    have hkeeps : (ph.effect store).csvFile = store.csvFile ∧
        (ph.effect store = store ∨ (ph.effect store).dirty = true) := by
      cases ph with
      | inserting data => exact insertRow_edits data store
      | updating requestId updates => exact updateRow_edits requestId updates store
      | saving => exact ⟨rfl, .inl rfl⟩
      | done => exact ⟨rfl, .inl rfl⟩
      | _ => cases hnone
    obtain ⟨hfile, hsame | hdirty⟩ := hkeeps
    · rcases hchange with hne | ⟨hset, hclear⟩
      · exact hne hfile
      · simp_all
    · rcases hchange with hne | ⟨hset, hclear⟩
      · exact hne hfile
      · simp_all
  · intro hsome
    cases ph with
    | opening content => exact .opening content
    | writing content => exact .writing content
    | closing content => exact .closing
    | _ => exact absurd rfl hsome

theorem noSave_inPhases_iff {store : MetricsStore α} {phases : List (Phase α)} :
    NoSave (inPhases text store phases) ↔ ∀ ph ∈ phases, ph.content? = none := by
  simp only [NoSave, inPhases, List.forall_mem_map, inProgress_code_iff, not_not]

theorem Call.phase {t : Unit × Coro (Unit × MetricsStore α) Unit} (h : Call text t) :
    ∃ ph : Phase α, t = ((), ph.code text) ∧ ph.content? = none := by
  cases h with
  | insertMetrics data => exact ⟨.inserting data, rfl, rfl⟩
  | updateMetrics requestId updates => exact ⟨.updating requestId updates, rfl, rfl⟩
  | saveCache => exact ⟨.saving, rfl, rfl⟩
  | syncCache => exact ⟨.saving, rfl, rfl⟩

/-- What a step of the event loop can do: a call begins, or some task goes to its next
phase. -/
theorem step_cases {store : MetricsStore α} {phases : List (Phase α)}
    {p' : Pool Unit (MetricsStore α)}
    (hstep : Pool.Step (Call text) (inPhases text store phases) p') :
    (∃ ph, ph.content? = none ∧ p' = inPhases text store (ph :: phases)) ∨
      ∃ before ph after, phases = before ++ ph :: after ∧
        p' = inPhases text (ph.effect store) (before ++ ph.next text store :: after) := by
  generalize hp : inPhases text store phases = p at hstep
  cases hstep with
  | spawn s ts t ht =>
    obtain ⟨ph, rfl, hph⟩ := ht.phase
    cases hp
    exact .inl ⟨ph, hph, rfl⟩
  | resume s before after l c =>
    simp only [inPhases, Pool.mk.injEq] at hp
    obtain ⟨rfl, htasks⟩ := hp
    -- the task that runs is in one of the phases
    obtain ⟨front, back, rfl, rfl, hback⟩ := List.map_eq_append_iff.mp htasks
    obtain ⟨ph, back, rfl, hcode, rfl⟩ := List.map_eq_cons_iff.mp hback
    cases hcode
    refine .inr ⟨front, ph, back, rfl, ?_⟩
    simp [inPhases, Phase.resume_code]

/-- The tasks of the event loop are in phases of which the invariant holds. -/
def Tracked (p : Pool Unit (MetricsStore α)) : Prop :=
  ∃ store phases, p = inPhases text store phases ∧ Faithful text store phases

theorem tracked_init (csvFile : Option String) : Tracked text ⟨init csvFile, []⟩ := by
  refine ⟨init csvFile, [], rfl, ?_, ?_, ?_⟩
  · intro ph hph
    cases hph
  · rintro ⟨content, hclosing⟩
    cases hclosing
  · intro _ _ hkeys
    exact absurd rfl hkeys

theorem Tracked.step {p p' : Pool Unit (MetricsStore α)} (hp : Tracked text p)
    (hstep : Pool.Step (Call text) p p') (hquiet : Quiet text p p') : Tracked text p' := by
  obtain ⟨store, phases, rfl, h⟩ := hp
  rcases step_cases text hstep with ⟨ph, hph, rfl⟩ | ⟨before, ph, after, rfl, rfl⟩
  · exact ⟨store, ph :: phases, rfl, (Faithful.cons_iff hph).mpr h⟩
  · refine ⟨_, _, rfl, ?_⟩
    have hnext : Faithful text (ph.effect store) (ph.next text store :: (before ++ after)) := by
      apply (h.perm List.perm_middle).next
      rcases hquiet with hsame | hnone
      · exact .inl hsame
      · right
        intro q hq
        apply (noSave_inPhases_iff text).mp hnone q
        exact List.perm_middle.mem_iff.mpr (List.mem_cons_of_mem _ hq)
    exact hnext.perm List.perm_middle.symm

theorem Tracked.clean {p : Pool Unit (MetricsStore α)} (hp : Tracked text p) : Clean text p := by
  obtain ⟨store, phases, rfl, h⟩ := hp
  intro hnone
  exact h.clean ((noSave_inPhases_iff text).mp hnone)

/-! ## Runs -/

/-- As long as the rows to be written change only when no save is in progress, a clean flag
means that the file holds the rows. -/
theorem clean_of_quiet (csvFile : Option String) {p : Pool Unit (MetricsStore α)}
    (hrun : ReflTransGen (fun p p' => Pool.Step (Call text) p p' ∧ Quiet text p p')
      ⟨init csvFile, []⟩ p) : Clean text p := by
  have htracked : Tracked text p := by
    induction hrun with
    | refl => exact tracked_init text csvFile
    | tail _ hstep ih => exact ih.step text hstep.1 hstep.2
  exact htracked.clean text

/-! ### A run with two saves at once, and one that loses the second row -/

/-- A row that has only its request id. -/
def row (requestId : String) : OrderedDict String String :=
  OrderedDict.empty.set "request_id" requestId

/-- A store with one row, never saved. -/
def oneRow : MetricsStore String := (init none).insertRow (row "1")

/-- What is written for the one row. -/
def oneRowContent : String := ((csvContent id oneRow.dataCache).toOption).getD ""

set_option maxRecDepth 20000 in
theorem csvContent_oneRow : csvContent id oneRow.dataCache = .ok oneRowContent := by rfl

theorem next_saving_oneRow : Phase.saving.next id oneRow = .opening oneRowContent :=
  Phase.next_saving id rfl csvContent_oneRow

/-- The row is sent to the empty store. -/
theorem spawned_oneRow : Pool.Step (Call id) ⟨init none, []⟩
    (inPhases id (init none) [.inserting (row "1")]) :=
  .spawn _ _ _ (.insertMetrics (row "1"))

theorem inserted_oneRow : Pool.Step (Call id) (inPhases id (init none) [.inserting (row "1")])
    (inPhases id oneRow [.done]) := step_inPhases id _ [] [] _

/-- The store is told to save what it has. -/
theorem asked_oneRow : Pool.Step (Call id) (inPhases id oneRow [.done])
    (inPhases id oneRow [.saving, .done]) := .spawn _ _ _ .saveCache

/-- The save has put the row together and is about to open the file. -/
theorem begun_oneRow : Pool.Step (Call id) (inPhases id oneRow [.saving, .done])
    (inPhases id oneRow [.opening oneRowContent, .done]) := by
  have hbegin := step_inPhases id oneRow [] [.done] .saving
  rw [next_saving_oneRow] at hbegin
  exact hbegin

/-- A store with two rows, never saved. -/
def twoRows : MetricsStore String := oneRow.insertRow (row "2")

/-- What is written for the two rows. -/
def twoRowsContent : String := ((csvContent id twoRows.dataCache).toOption).getD ""

set_option maxRecDepth 20000 in
theorem csvContent_twoRows : csvContent id twoRows.dataCache = .ok twoRowsContent := by rfl

theorem next_saving_twoRows : Phase.saving.next id twoRows = .opening twoRowsContent :=
  Phase.next_saving id rfl csvContent_twoRows

/-- The store after the two rows were saved. -/
def twoRowsSaved : MetricsStore String :=
  { twoRows with csvFile := some twoRowsContent, dirty := false }

/-- Two rows are inserted, and two saves begin before either of them opens the file. -/
theorem begun_twoRows : ReflTransGen (fun p p' => Pool.Step (Call id) p p' ∧ Quiet id p p')
    ⟨init none, []⟩ (inPhases id twoRows
      [.opening twoRowsContent, .opening twoRowsContent, .done, .done]) := by
  have hsecond : Pool.Step (Call id) (inPhases id oneRow [.done])
      (inPhases id oneRow [.inserting (row "2"), .done]) := .spawn _ _ _ (.insertMetrics (row "2"))
  have hinserted : Pool.Step (Call id) (inPhases id oneRow [.inserting (row "2"), .done])
      (inPhases id twoRows [.done, .done]) := step_inPhases id _ [] _ _
  have hfirstSave : Pool.Step (Call id) (inPhases id twoRows [.done, .done])
      (inPhases id twoRows [.saving, .done, .done]) := .spawn _ _ _ .saveCache
  have hsecondSave : Pool.Step (Call id) (inPhases id twoRows [.saving, .done, .done])
      (inPhases id twoRows [.saving, .saving, .done, .done]) := .spawn _ _ _ .saveCache
  have hfirstBegun := step_inPhases id twoRows [.saving] [.done, .done] .saving
  have hsecondBegun := step_inPhases id twoRows [] [.opening twoRowsContent, .done, .done] .saving
  rw [next_saving_twoRows] at hfirstBegun hsecondBegun
  -- the rows change only while there is no save
  have hnone : NoSave (inPhases id (init none) [.inserting (row "1")]) :=
    (noSave_inPhases_iff id).mpr (by decide)
  have hnone' : NoSave (inPhases id oneRow [.inserting (row "2"), .done]) :=
    (noSave_inPhases_iff id).mpr (by decide)
  refine .head ⟨spawned_oneRow, .inl rfl⟩ (.head ⟨inserted_oneRow, .inr hnone⟩ ?_)
  refine .head ⟨hsecond, .inl rfl⟩ (.head ⟨hinserted, .inr hnone'⟩ ?_)
  refine .head ⟨hfirstSave, .inl rfl⟩ (.head ⟨hsecondSave, .inl rfl⟩ ?_)
  exact .head ⟨hfirstBegun, .inl rfl⟩ (.single ⟨hsecondBegun, .inl rfl⟩)

/-- The second save empties the file after the first one has written it, and the first one clears
the flag before the second one writes: at the end all is well. -/
theorem clean_of_quiet_overlapping :
    NoSave (inPhases id twoRowsSaved [.done, .done, .done, .done]) ∧
      Clean id (inPhases id twoRowsSaved [.done, .done, .done, .done]) := by
  constructor
  · exact (noSave_inPhases_iff id).mpr (by decide)
  · apply clean_of_quiet id none
    -- the second save opens the file between the first one's write and its close
    have hopen := step_inPhases id twoRows [.opening twoRowsContent] [.done, .done]
      (.opening twoRowsContent)
    have hwrite := step_inPhases id { twoRows with csvFile := some "" }
      [.opening twoRowsContent] [.done, .done] (.writing twoRowsContent)
    have hopen' := step_inPhases id { twoRows with csvFile := some twoRowsContent } []
      [.closing twoRowsContent, .done, .done] (.opening twoRowsContent)
    have hclose := step_inPhases id { twoRows with csvFile := some "" }
      [.writing twoRowsContent] [.done, .done] (.closing twoRowsContent)
    have hwrite' := step_inPhases id { twoRows with csvFile := some "", dirty := false } []
      [.done, .done, .done] (.writing twoRowsContent)
    have hclose' := step_inPhases id twoRowsSaved [] [.done, .done, .done]
      (.closing twoRowsContent)
    refine begun_twoRows.trans (.head ⟨hopen, .inl rfl⟩ (.head ⟨hwrite, .inl rfl⟩ ?_))
    refine .head ⟨hopen', .inl rfl⟩ (.head ⟨hclose, .inl rfl⟩ ?_)
    exact .head ⟨hwrite', .inl rfl⟩ (.single ⟨hclose', .inl rfl⟩)

/-- The store after a second row was inserted while the first one was being saved. -/
def secondRowLost : MetricsStore String :=
  { oneRow.insertRow (row "2") with csvFile := some oneRowContent, dirty := false }

theorem not_writtenBack_secondRowLost : ¬ WrittenBack id secondRowLost := by
  rintro ⟨content, hcontent, hfile⟩
  cases hfile
  have hne : (csvContent id secondRowLost.dataCache).toOption ≠ some oneRowContent := by
    decide +kernel
  rw [hcontent] at hne
  exact hne rfl

/-- The second row is inserted after the first one was put together for the file, and before
the flag is cleared. -/
theorem not_clean : ¬ ∀ p : Pool Unit (MetricsStore String),
    ReflTransGen (Pool.Step (Call id)) ⟨init none, []⟩ p → Clean id p := by
  intro h
  -- the save is about to open the file
  have hspawn' : Pool.Step (Call id) (inPhases id oneRow [.opening oneRowContent, .done])
      (inPhases id oneRow [.inserting (row "2"), .opening oneRowContent, .done]) :=
    .spawn _ _ _ (.insertMetrics (row "2"))
  have hinsert' := step_inPhases id oneRow [] [.opening oneRowContent, .done]
    (.inserting (row "2"))
  have hopen := step_inPhases id (oneRow.insertRow (row "2")) [.done] [.done]
    (.opening oneRowContent)
  have hwrite := step_inPhases id { oneRow.insertRow (row "2") with csvFile := some "" }
    [.done] [.done] (.writing oneRowContent)
  have hclose := step_inPhases id
    { oneRow.insertRow (row "2") with csvFile := some oneRowContent } [.done] [.done]
    (.closing oneRowContent)
  have hrun : ReflTransGen (Pool.Step (Call id)) ⟨init none, []⟩
      (inPhases id secondRowLost [.done, .done, .done]) := by
    refine .head spawned_oneRow (.head inserted_oneRow ?_)
    refine .head asked_oneRow (.head begun_oneRow ?_)
    exact .head hspawn' (.head hinsert' (.head hopen (.head hwrite (.single hclose))))
  have hnone : NoSave (inPhases id secondRowLost [.done, .done, .done]) :=
    (noSave_inPhases_iff id).mpr (by decide)
  exact not_writtenBack_secondRowLost (h _ hrun hnone rfl (by decide))

end MetricsStore

end DualMap.Metrics
