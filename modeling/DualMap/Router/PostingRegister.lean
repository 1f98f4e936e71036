import DualMap.Router.PostingTasks
import Mathlib.Logic.Relation
import Mathlib.Data.List.Nodup
import Mathlib.Data.List.Count

/-!
# The Register of Posted Requests

`posting_request_tasks` has an entry for every task that is not done; nobody else keeps the
task. `on_request_complete` and `del_posting_request_tasks` remove it, in either order.
`Registered` says what holds between the steps.

Main result: `posting_exactly_once`. No task is ever cancelled by the code, every result is
put into the queue of finished requests once, and when all is done the entries that are left
are those of cancelled tasks.
-/

namespace DualMap.Router.Posting

open Client

variable {σ : Type} {schedulerCallback : Option (Py σ Unit)}
variable {finishRequest : RequestFuncOutput → Request → Py σ Unit}

/-! ## The invariant -/

/-- What holds between the steps. -/
structure Registered (schedulerCallback : Option (Py σ Unit)) (s : Posting σ) : Prop where
  keys : (s.tasks.map PostingTask.key).Nodup
  entries : ∀ key i, s.postingRequestTasks.get? key = some i →
    ∃ task, s.tasks[i]? = some task ∧ task.key = key
  registered : ∀ i task, s.tasks[i]? = some task →
    s.postingRequestTasks.get? task.key = some i ∨
      ∃ ending, task.ended = some ending ∧ ending ≠ .cancelled
  due : ∀ i task ending, s.tasks[i]? = some task → task.ended = some ending →
    ending ≠ .cancelled → s.postingRequestTasks.get? task.key = some i →
      i ∈ s.callbacks ∨ i ∈ s.deleting
  ended : ∀ i, i ∈ s.callbacks ∨ i ∈ s.deleting →
    ∃ task ending, s.tasks[i]? = some task ∧ task.ended = some ending
  results : ∀ i ∈ s.completing, ∃ task output, s.tasks[i]? = some task ∧
    task.ended = some (.returned output)
  finished : ∀ i output request, (i, output, request) ∈ s.finished →
    ∃ task, s.tasks[i]? = some task ∧ task.request = request ∧
      task.ended = some (.returned output)
  completes : ∀ i task output, s.tasks[i]? = some task → task.ended = some (.returned output) →
    i ∈ s.callbacks ∨ i ∈ s.completing ∨ i ∈ s.finished.map Prod.fst
  once : ∀ i, s.callbacks.count i + s.completing.count i +
    (s.finished.map Prod.fst).count i ≤ 1
  notCancelled : s.cancelRequests = []
  fifo : s.finished.map Prod.snd = s.cleaned ++ s.finishedRequestsQueue
  finishCalls : s.finishCalls = s.cleaned.filterMap successful
  schedulerCalls : s.schedulerCalls = if schedulerCallback.isSome then s.finished.length else 0

namespace Registered

variable {s : Posting σ} {i : ℕ} {task : PostingTask}

theorem eq_of_key (h : Registered schedulerCallback s) {j : ℕ} {other : PostingTask}
    (htask : s.tasks[i]? = some task) (hother : s.tasks[j]? = some other)
    (hkey : other.key = task.key) : j = i := by
  have hi : (s.tasks.map PostingTask.key)[i]? = some task.key := by simp [htask]
  have hj : (s.tasks.map PostingTask.key)[j]? = some task.key := by simp [hother, hkey]
  obtain ⟨hlt, -⟩ := List.getElem?_eq_some_iff.mp hj
  exact (List.getElem?_inj hlt h.keys).mp (hj.trans hi.symm)

/-- The entry under the key of a task is the one of this task. -/
theorem entry_eq (h : Registered schedulerCallback s) (htask : s.tasks[i]? = some task) {j : ℕ}
    (hentry : s.postingRequestTasks.get? task.key = some j) : j = i := by
  obtain ⟨other, hother, hkey⟩ := h.entries task.key j hentry
  exact h.eq_of_key htask hother hkey

/-! ## The end of a task -/

/-- A request is posted under a new key. -/
theorem post (h : Registered schedulerCallback s) {targetIpPort : String} {request : Request}
    (hnew : (request.id, targetIpPort) ∉ s.tasks.map PostingTask.key) :
    Registered schedulerCallback (s.addPostingRequestTasks targetIpPort request) := by
  have hold : ∀ {i : ℕ} {task : PostingTask}, s.tasks[i]? = some task →
      (s.tasks ++ [⟨request, targetIpPort, none⟩])[i]? = some task := by
    intro i task htask
    obtain ⟨hlt, -⟩ := List.getElem?_eq_some_iff.mp htask
    rwa [List.getElem?_append_left hlt]
  have hcases : ∀ {i : ℕ} {task : PostingTask},
      (s.tasks ++ [⟨request, targetIpPort, none⟩])[i]? = some task →
        s.tasks[i]? = some task ∨ i = s.tasks.length ∧ task = ⟨request, targetIpPort, none⟩ := by
    intro i task htask
    rcases lt_or_ge i s.tasks.length with hlt | hge
    · rw [List.getElem?_append_left hlt] at htask
      exact Or.inl htask
    · rw [List.getElem?_append_right hge, List.getElem?_singleton] at htask
      split at htask
      · exact Or.inr ⟨by omega, (Option.some.inj htask).symm⟩
      · cases htask
  -- the key of an old task is not the new one
  have hkey : ∀ {i : ℕ} {task : PostingTask}, s.tasks[i]? = some task →
      task.key ≠ (request.id, targetIpPort) := fun htask heq =>
    hnew (heq ▸ List.mem_map_of_mem (List.mem_of_getElem? htask))
  have hget : ∀ {i : ℕ} {task : PostingTask}, s.tasks[i]? = some task →
      (s.postingRequestTasks.set (request.id, targetIpPort) s.tasks.length).get? task.key =
        s.postingRequestTasks.get? task.key :=
    fun htask => s.postingRequestTasks.get?_set_of_ne _ (hkey htask)
  refine ⟨?_, ?_, ?_, ?_, ?_, ?_, ?_, ?_, h.once, h.notCancelled, h.fifo, h.finishCalls,
    h.schedulerCalls⟩
  · simp only [addPostingRequestTasks, List.map_append, List.map_cons, List.map_nil]
    refine List.nodup_append.mpr ⟨h.keys, List.nodup_singleton _, ?_⟩
    rintro a ha b hb rfl
    rw [List.mem_singleton.mp hb] at ha
    exact hnew ha
  · intro key i hentry
    simp only [addPostingRequestTasks, OrderedDict.get?_set] at hentry ⊢
    split at hentry
    · next hsame =>
      obtain rfl := Option.some.inj hentry
      exact ⟨⟨request, targetIpPort, none⟩, by simp, hsame.symm⟩
    · obtain ⟨task, htask, rfl⟩ := h.entries key i hentry
      exact ⟨task, hold htask, rfl⟩
  · intro i task htask
    rcases hcases htask with hmem | ⟨rfl, rfl⟩
    · simp only [addPostingRequestTasks]
      rw [hget hmem]
      exact h.registered i task hmem
    · exact Or.inl (s.postingRequestTasks.get?_set_self _ _)
  · intro i task ending htask hended hnot hentry
    rcases hcases htask with hmem | ⟨rfl, rfl⟩
    · simp only [addPostingRequestTasks] at hentry
      rw [hget hmem] at hentry
      exact h.due i task ending hmem hended hnot hentry
    · cases hended
  · intro i hdue
    obtain ⟨task, ending, htask, hended⟩ := h.ended i hdue
    exact ⟨task, ending, hold htask, hended⟩
  · intro i hdue
    obtain ⟨task, output, htask, hended⟩ := h.results i hdue
    exact ⟨task, output, hold htask, hended⟩
  · intro i output request' hmem
    obtain ⟨task, htask, hrequest, hended⟩ := h.finished i output request' hmem
    exact ⟨task, hold htask, hrequest, hended⟩
  · intro i task output htask hended
    rcases hcases htask with hmem | ⟨rfl, rfl⟩
    · exact h.completes i task output hmem hended
    · cases hended

/-- A task ends, whatever the way. -/
theorem taskEnds (h : Registered schedulerCallback s) {ending : TaskEnd}
    (htask : s.tasks[i]? = some task) (hrunning : task.ended = none) :
    Registered schedulerCallback
      { s with
        tasks := s.tasks.set i { task with ended := some ending }
        callbacks := s.callbacks ++ [i] } := by
  obtain ⟨hlt, -⟩ := List.getElem?_eq_some_iff.mp htask
  have hself : (s.tasks.set i { task with ended := some ending })[i]? =
      some { task with ended := some ending } := List.getElem?_set_self hlt
  have hother : ∀ {j : ℕ}, j ≠ i →
      (s.tasks.set i { task with ended := some ending })[j]? = s.tasks[j]? :=
    fun hne => List.getElem?_set_ne hne.symm
  have hkeys : (s.tasks.set i { task with ended := some ending }).map PostingTask.key =
      s.tasks.map PostingTask.key := by
    rw [List.map_set]
    apply List.ext_getElem?
    intro j
    by_cases hj : j = i
    · subst hj
      rw [List.getElem?_set_self (by simpa using hlt)]
      simp [htask, PostingTask.key]
    · rw [List.getElem?_set_ne (Ne.symm hj)]
  -- what concerns an ended task concerns another one
  have hne : ∀ {j : ℕ} {t : PostingTask} {e : TaskEnd}, s.tasks[j]? = some t →
      t.ended = some e → j ≠ i := by
    rintro j t e ht he rfl
    rw [htask] at ht
    obtain rfl := Option.some.inj ht
    rw [hrunning] at he
    cases he
  refine ⟨?_, ?_, ?_, ?_, ?_, ?_, ?_, ?_, ?_, h.notCancelled, h.fifo, h.finishCalls,
    h.schedulerCalls⟩
  · rw [hkeys]
    exact h.keys
  · intro key j hentry
    obtain ⟨t, ht, hkey⟩ := h.entries key j hentry
    by_cases hj : j = i
    · subst hj
      rw [htask] at ht
      obtain rfl := Option.some.inj ht
      exact ⟨_, hself, hkey⟩
    · exact ⟨t, (hother hj).trans ht, hkey⟩
  · intro j t ht
    by_cases hj : j = i
    · subst hj
      rw [hself] at ht
      obtain rfl := Option.some.inj ht
      -- it was running, so it is registered
      rcases h.registered j task htask with hentry | ⟨e, hended, -⟩
      · exact Or.inl hentry
      · rw [hrunning] at hended
        cases hended
    · rw [hother hj] at ht
      exact h.registered j t ht
  · intro j t e ht hended hnot hentry
    by_cases hj : j = i
    · exact Or.inl (by simp [hj])
    · rw [hother hj] at ht
      exact (h.due j t e ht hended hnot hentry).imp_left (List.mem_append_left _)
  · intro j hdue
    by_cases hj : j = i
    · subst hj
      exact ⟨_, ending, hself, rfl⟩
    · have hdue' : j ∈ s.callbacks ∨ j ∈ s.deleting := by simpa [hj] using hdue
      obtain ⟨t, e, ht, hended⟩ := h.ended j hdue'
      exact ⟨t, e, (hother hj).trans ht, hended⟩
  · intro j hdue
    obtain ⟨t, output, ht, hended⟩ := h.results j hdue
    exact ⟨t, output, (hother (hne ht hended)).trans ht, hended⟩
  · intro j output request hmem
    obtain ⟨t, ht, hrequest, hended⟩ := h.finished j output request hmem
    exact ⟨t, (hother (hne ht hended)).trans ht, hrequest, hended⟩
  · intro j t output ht hended
    by_cases hj : j = i
    · exact Or.inl (by simp [hj])
    · rw [hother hj] at ht
      exact (h.completes j t output ht hended).imp_left (List.mem_append_left _)
  · -- the task was not counted anywhere while it was running
    intro j
    by_cases hj : j = i
    · subst hj
      have hcallbacks : j ∉ s.callbacks := fun hmem => by
        obtain ⟨t, e, ht, hended⟩ := h.ended j (Or.inl hmem)
        exact hne ht hended rfl
      have hcompleting : j ∉ s.completing := fun hmem => by
        obtain ⟨t, output, ht, hended⟩ := h.results j hmem
        exact hne ht hended rfl
      have hfinished : j ∉ s.finished.map Prod.fst := fun hmem => by
        obtain ⟨⟨_, output, request⟩, hmem', rfl⟩ := List.mem_map.mp hmem
        obtain ⟨t, ht, -, hended⟩ := h.finished _ output request hmem'
        exact hne ht hended rfl
      simp [List.count_append, List.count_eq_zero_of_not_mem hcallbacks,
        List.count_eq_zero_of_not_mem hcompleting, List.count_eq_zero_of_not_mem hfinished]
    · have hcount := h.once j
      have hzero : List.count j [i] = 0 := List.count_eq_zero_of_not_mem (by simpa using hj)
      simp only [List.count_append, hzero]
      omega

/-! ## The callback -/

/-- The callback makes `del_posting_request_tasks` due. -/
theorem due_of_callback (h : Registered schedulerCallback s) {j : ℕ} {other : PostingTask}
    {ending : TaskEnd} (hother : s.tasks[j]? = some other) (hended : other.ended = some ending)
    (hnot : ending ≠ .cancelled) (hentry : s.postingRequestTasks.get? other.key = some j) :
    j ∈ s.callbacks.erase i ∨ j ∈ s.deleting ++ [i] := by
  rcases h.due j other ending hother hended hnot hentry with hmem | hmem
  · by_cases hj : j = i
    · exact Or.inr (by simp [hj])
    · exact Or.inl ((List.mem_erase_of_ne hj).mpr hmem)
  · exact Or.inr (List.mem_append_left _ hmem)

theorem ended_of_callback (h : Registered schedulerCallback s) (hdue : i ∈ s.callbacks) {j : ℕ}
    (hmem : j ∈ s.callbacks.erase i ∨ j ∈ s.deleting ++ [i]) :
    ∃ other ending, s.tasks[j]? = some other ∧ other.ended = some ending := by
  rcases hmem with hmem | hmem
  · exact h.ended j (Or.inl (List.mem_of_mem_erase hmem))
  · rcases List.mem_append.mp hmem with hmem | hmem
    · exact h.ended j (Or.inr hmem)
    · rw [List.mem_singleton.mp hmem]
      exact h.ended i (Or.inl hdue)

theorem count_callbacks (hdue : i ∈ s.callbacks) (j : ℕ) :
    s.callbacks.count j = (s.callbacks.erase i).count j + [i].count j := by
  rw [(List.perm_cons_erase hdue).count_eq j, ← List.singleton_append, List.count_append,
    Nat.add_comm]

/-- The callback of a task that returned. -/
theorem callback_returned (h : Registered schedulerCallback s)
    {output : Option RequestFuncOutput} (htask : s.tasks[i]? = some task)
    (hended : task.ended = some (.returned output)) (hdue : i ∈ s.callbacks) :
    Registered schedulerCallback
      (handleTaskCompletion i (.returned output) { s with callbacks := s.callbacks.erase i }) := by
  refine ⟨h.keys, h.entries, h.registered, fun _ _ _ => h.due_of_callback,
    fun _ => h.ended_of_callback hdue, ?_, h.finished, ?_, ?_, h.notCancelled, h.fifo,
    h.finishCalls, h.schedulerCalls⟩
  -- the result moves from the callbacks to the completions, and counts once before and after
  · intro j hmem
    rcases List.mem_append.mp hmem with hmem | hmem
    · exact h.results j hmem
    · rw [List.mem_singleton.mp hmem]
      exact ⟨task, output, htask, hended⟩
  · intro j other result hother hresult
    rcases h.completes j other result hother hresult with hmem | hmem | hmem
    · by_cases hj : j = i
      · exact Or.inr (Or.inl (by simp [handleTaskCompletion, hj]))
      · exact Or.inl ((List.mem_erase_of_ne hj).mpr hmem)
    · exact Or.inr (Or.inl (List.mem_append_left _ hmem))
    · exact Or.inr (Or.inr hmem)
  · intro j
    have honce := h.once j
    have hcount := count_callbacks hdue j
    simp only [handleTaskCompletion, List.count_append]
    omega

/-- The callback of a task that raised or was cancelled. -/
theorem callback_failed (h : Registered schedulerCallback s) {ending : TaskEnd}
    (htask : s.tasks[i]? = some task) (hended : task.ended = some ending)
    (hfailed : ∀ output, ending ≠ .returned output) (hdue : i ∈ s.callbacks) :
    Registered schedulerCallback
      { s with callbacks := s.callbacks.erase i, deleting := s.deleting ++ [i] } := by
  refine ⟨h.keys, h.entries, h.registered, fun _ _ _ => h.due_of_callback,
    fun _ => h.ended_of_callback hdue, h.results, h.finished, ?_, ?_, h.notCancelled, h.fifo,
    h.finishCalls, h.schedulerCalls⟩
  · intro j other result hother hresult
    refine (h.completes j other result hother hresult).imp_left fun hmem => ?_
    -- only a task with a result owes a completion, and this one has none
    have hj : j ≠ i := by
      rintro rfl
      obtain rfl := Option.some.inj (htask.symm.trans hother)
      exact hfailed result (Option.some.inj (hended.symm.trans hresult))
    exact (List.mem_erase_of_ne hj).mpr hmem
  · intro j
    have honce := h.once j
    have hcount := count_callbacks hdue j
    show (s.callbacks.erase i).count j + s.completing.count j +
      (s.finished.map Prod.fst).count j ≤ 1
    omega

theorem callback (h : Registered schedulerCallback s) {ending : TaskEnd}
    (htask : s.tasks[i]? = some task) (hended : task.ended = some ending)
    (hdue : i ∈ s.callbacks) :
    Registered schedulerCallback
      (handleTaskCompletion i ending { s with callbacks := s.callbacks.erase i }) := by
  cases ending with
  | returned output => exact h.callback_returned htask hended hdue
  | raised => exact h.callback_failed htask hended (fun _ => by simp) hdue
  | cancelled => exact h.callback_failed htask hended (fun _ => by simp) hdue

/-! ## `del_posting_request_tasks` -/

/-- Of a task that has ended, and was not cancelled, it removes the entry. -/
theorem delPostingRequestTasks_apply {ending : TaskEnd} (htask : s.tasks[i]? = some task)
    (hended : task.ended = some ending) (hnot : ending ≠ .cancelled)
    (hentry : ∀ j, s.postingRequestTasks.get? task.key = some j → j = i) :
    ∃ d : OrderedDict (ℕ × String) ℕ, d.get? task.key = none ∧
      (∀ key, key ≠ task.key → d.get? key = s.postingRequestTasks.get? key) ∧
      delPostingRequestTasks task.request task.targetIpPort s =
        .ok () { s with postingRequestTasks := d } := by
  rw [delPostingRequestTasks, Py.bind_ok (Py.get_apply s)]
  cases hfound : s.postingRequestTasks.get? task.key with
  -- `del_posting_request_tasks` finds no entry, or one whose task is done
  | none =>
    refine ⟨s.postingRequestTasks, hfound, fun _ _ => rfl, ?_⟩
    rw [PostingTask.key] at hfound
    simp only [hfound]
    rfl
  | some j =>
    obtain rfl := hentry j hfound
    refine ⟨s.postingRequestTasks.erase task.key, s.postingRequestTasks.get?_erase_self _,
      fun key hne => s.postingRequestTasks.get?_erase_of_ne hne, ?_⟩
    rw [PostingTask.key] at hfound ⊢
    simp only [hfound, htask, Option.bind_some, hended]
    cases ending with
    | returned output => rfl
    | raised => rfl
    | cancelled => exact absurd rfl hnot

/-- Of a cancelled task it leaves the entry. -/
theorem delPostingRequestTasks_cancelled (htask : s.tasks[i]? = some task)
    (hended : task.ended = some .cancelled)
    (hentry : ∀ j, s.postingRequestTasks.get? task.key = some j → j = i) :
    Py.finalState (delPostingRequestTasks task.request task.targetIpPort s) = s := by
  rw [delPostingRequestTasks, Py.bind_ok (Py.get_apply s)]
  cases hfound : s.postingRequestTasks.get? task.key with
  | none =>
    rw [PostingTask.key] at hfound
    simp only [hfound]
    rfl
  | some j =>
    obtain rfl := hentry j hfound
    rw [PostingTask.key] at hfound
    simp only [hfound, htask, Option.bind_some, hended]
    rfl

/-- The entry of a task that has ended may go. -/
theorem erase_entry (h : Registered schedulerCallback s) {ending : TaskEnd}
    (htask : s.tasks[i]? = some task) (hended : task.ended = some ending)
    (hnot : ending ≠ .cancelled) {d : OrderedDict (ℕ × String) ℕ} (hself : d.get? task.key = none)
    (hothers : ∀ key, key ≠ task.key → d.get? key = s.postingRequestTasks.get? key) :
    Registered schedulerCallback { s with postingRequestTasks := d } := by
  have hget : ∀ key j, d.get? key = some j → key ≠ task.key ∧
      s.postingRequestTasks.get? key = some j := by
    intro key j hfound
    have hne : key ≠ task.key := by
      rintro rfl
      rw [hself] at hfound
      cases hfound
    exact ⟨hne, (hothers key hne).symm.trans hfound⟩
  refine ⟨h.keys, fun key j hfound => h.entries key j (hget key j hfound).2, ?_, ?_, h.ended,
    h.results, h.finished, h.completes, h.once, h.notCancelled, h.fifo, h.finishCalls,
    h.schedulerCalls⟩
  · intro j other hother
    -- the key belongs to this task alone, which has ended and needs no entry
    by_cases hkey : other.key = task.key
    · obtain rfl := h.eq_of_key htask hother hkey
      obtain rfl := Option.some.inj (htask.symm.trans hother)
      exact Or.inr ⟨ending, hended, hnot⟩
    · exact (h.registered j other hother).imp_left (hothers other.key hkey).trans
  · intro j other ending' hother hended' hnot' hfound
    exact h.due j other ending' hother hended' hnot' (hget _ _ hfound).2

/-- Where the entry is gone, or will stay, the deletion is no longer due. -/
theorem erase_deleting (h : Registered schedulerCallback s) {ending : TaskEnd}
    (htask : s.tasks[i]? = some task) (hended : task.ended = some ending)
    (hgone : ending ≠ .cancelled → s.postingRequestTasks.get? task.key = none) :
    Registered schedulerCallback { s with deleting := s.deleting.erase i } := by
  refine ⟨h.keys, h.entries, h.registered, ?_, fun j hmem => h.ended j
    (hmem.imp_right List.mem_of_mem_erase), h.results, h.finished, h.completes, h.once,
    h.notCancelled, h.fifo, h.finishCalls, h.schedulerCalls⟩
  intro j other ending' hother hended' hnot' hfound
  refine (h.due j other ending' hother hended' hnot' hfound).imp_right fun hmem => ?_
  have hj : j ≠ i := by
    rintro rfl
    obtain rfl := Option.some.inj (htask.symm.trans hother)
    obtain rfl := Option.some.inj (hended.symm.trans hended')
    rw [hgone hnot'] at hfound
    cases hfound
  exact (List.mem_erase_of_ne hj).mpr hmem

theorem delete (h : Registered schedulerCallback s) (htask : s.tasks[i]? = some task)
    (hdue : i ∈ s.deleting) :
    Registered schedulerCallback (Py.finalState (delPostingRequestTasks task.request
      task.targetIpPort { s with deleting := s.deleting.erase i })) := by
  obtain ⟨other, ending, hother, hended⟩ := h.ended i (Or.inr hdue)
  obtain rfl := Option.some.inj (htask.symm.trans hother)
  have hentry := fun j => h.entry_eq (j := j) htask
  by_cases hcancelled : ending = .cancelled
  · subst hcancelled
    rw [delPostingRequestTasks_cancelled (s := { s with deleting := s.deleting.erase i }) htask
      hended hentry]
    exact h.erase_deleting htask hended (fun hnot => absurd rfl hnot)
  · obtain ⟨d, hself, hothers, happly⟩ := delPostingRequestTasks_apply
      (s := { s with deleting := s.deleting.erase i }) htask hended hcancelled hentry
    rw [happly]
    exact (h.erase_entry htask hended hcancelled hself hothers).erase_deleting htask hended
      (fun _ => hself)

/-! ## `on_request_complete` -/

/-- The result goes into the queue. -/
theorem put (h : Registered schedulerCallback s) {output : Option RequestFuncOutput}
    (htask : s.tasks[i]? = some task) (hended : task.ended = some (.returned output))
    (hdue : i ∈ s.completing) {calls : ℕ} (hcalls : calls =
      if schedulerCallback.isSome then s.finished.length + 1 else 0) :
    Registered schedulerCallback
      { s with
        completing := s.completing.erase i
        finishedRequestsQueue := s.finishedRequestsQueue ++ [(output, task.request)]
        finished := s.finished ++ [(i, output, task.request)]
        schedulerCalls := calls } := by
  refine ⟨h.keys, h.entries, h.registered, h.due, h.ended,
    fun j hmem => h.results j (List.mem_of_mem_erase hmem), ?_, ?_, ?_, h.notCancelled, ?_,
    h.finishCalls, ?_⟩
  · intro j output' request hmem
    rcases List.mem_append.mp hmem with hmem | hmem
    · exact h.finished j output' request hmem
    · obtain ⟨rfl, rfl, rfl⟩ : j = i ∧ output' = output ∧ request = task.request := by
        simpa using hmem
      exact ⟨task, htask, rfl, hended⟩
  -- the result moves from the completions to the queue
  · intro j other result hother hresult
    refine (h.completes j other result hother hresult).imp_right fun hmem => ?_
    by_cases hj : j = i
    · exact Or.inr (by simp [hj])
    · refine hmem.imp (List.mem_erase_of_ne hj).mpr fun hmem => ?_
      rw [List.map_append]
      exact List.mem_append_left _ hmem
  · intro j
    have honce := h.once j
    have hcount : s.completing.count j = (s.completing.erase i).count j + [i].count j := by
      rw [(List.perm_cons_erase hdue).count_eq j, ← List.singleton_append, List.count_append,
        Nat.add_comm]
    simp only [List.map_append, List.map_cons, List.map_nil, List.count_append]
    omega
  · rw [List.map_append, h.fifo, List.append_assoc]
    rfl
  · simpa using hcalls

theorem scheduler (h : Registered schedulerCallback s) (scheduler : σ) :
    Registered schedulerCallback { s with globalScheduler := scheduler } :=
  ⟨h.keys, h.entries, h.registered, h.due, h.ended, h.results, h.finished, h.completes, h.once,
    h.notCancelled, h.fifo, h.finishCalls, h.schedulerCalls⟩

theorem complete (h : Registered schedulerCallback s) {output : Option RequestFuncOutput}
    (htask : s.tasks[i]? = some task) (hended : task.ended = some (.returned output))
    (hdue : i ∈ s.completing) :
    Registered schedulerCallback (Py.finalState (onRequestComplete schedulerCallback i output
      task.request task.targetIpPort { s with completing := s.completing.erase i })) := by
  obtain ⟨d, hself, hothers, happly⟩ := delPostingRequestTasks_apply
    (s := { s with completing := s.completing.erase i }) htask hended (by simp)
    (fun j => h.entry_eq htask)
  have herased := h.erase_entry htask hended (by simp) hself hothers
  rw [onRequestComplete, Py.tryExcept, Py.bind_ok happly, Py.bind_ok (Py.modify_apply _ _)]
  have hcalls := h.schedulerCalls
  cases schedulerCallback with
  | none => exact herased.put htask hended hdue hcalls
  | some callback =>
    have hcall : s.schedulerCalls + 1 =
        if (some callback).isSome then s.finished.length + 1 else 0 := by
      rw [hcalls]
      rfl
    have hput := herased.put htask hended hdue hcall
    rw [callScheduler, Py.bind_ok (Py.modify_apply _ _), Py.zoom_apply]
    -- whatever the scheduler does, only its own state has changed
    cases callback s.globalScheduler with
    | ok _ scheduler => exact hput.scheduler scheduler
    | error fault scheduler =>
      cases fault <;> exact hput.scheduler scheduler

/-! ## The other steps -/

theorem cleanup (h : Registered schedulerCallback s)
    {item : Option RequestFuncOutput × Request}
    {rest : List (Option RequestFuncOutput × Request)}
    (hqueue : s.finishedRequestsQueue = item :: rest) :
    Registered schedulerCallback
      (cleanupSelection finishRequest item { s with finishedRequestsQueue := rest }) := by
  have hfifo : s.finished.map Prod.snd = (s.cleaned ++ [item]) ++ rest := by
    rw [h.fifo, hqueue, List.append_assoc]
    rfl
  rw [cleanupSelection]
  cases hitem : successful item with
  | none =>
    have hcalls : s.finishCalls = (s.cleaned ++ [item]).filterMap successful := by
      simp [h.finishCalls, hitem]
    exact ⟨h.keys, h.entries, h.registered, h.due, h.ended, h.results, h.finished, h.completes,
      h.once, h.notCancelled, hfifo, hcalls, h.schedulerCalls⟩
  | some call =>
    have hcalls : s.finishCalls ++ [(call.1, call.2)] =
        -- whether `finish_request` raises or not, the call was made and the item is gone
        (s.cleaned ++ [item]).filterMap successful := by
      simp [h.finishCalls, hitem]
    simp only
    split
    · exact ⟨h.keys, h.entries, h.registered, h.due, h.ended, h.results, h.finished, h.completes,
        h.once, h.notCancelled, hfifo, hcalls, h.schedulerCalls⟩
    · exact ⟨h.keys, h.entries, h.registered, h.due, h.ended, h.results, h.finished, h.completes,
        h.once, h.notCancelled, hfifo, hcalls, h.schedulerCalls⟩

end Registered

/-! ## Runs -/

theorem Step.registered {others : σ → σ → Prop} {s s' : Posting σ}
    (h : Registered schedulerCallback s)
    (hstep : Step schedulerCallback finishRequest others s s') :
    Registered schedulerCallback s' := by
  cases hstep with
  | post targetIpPort request hnew => exact h.post hnew
  | taskEnds i task ending htask hrunning => exact h.taskEnds htask hrunning
  | callback i task ending htask hended hdue => exact h.callback htask hended hdue
  | complete i task output htask hended hdue => exact h.complete htask hended hdue
  | delete i task htask hdue => exact h.delete htask hdue
  | cleanup item rest hruns hqueue => exact h.cleanup hqueue
  | others scheduler _ => exact h.scheduler scheduler

theorem start_registered (scheduler : σ) :
    Registered schedulerCallback ({ globalScheduler := scheduler } : Posting σ) where
  keys := List.nodup_nil
  entries := by simp
  registered := by simp
  due := by simp
  ended := by simp
  results := by simp
  finished := by simp
  completes := by simp
  once := by simp
  notCancelled := rfl
  fifo := rfl
  finishCalls := rfl
  schedulerCalls := by simp

theorem run_registered {others : σ → σ → Prop} {s s' : Posting σ}
    (h : Registered schedulerCallback s)
    (hrun : Relation.ReflTransGen (Step schedulerCallback finishRequest others) s s') :
    Registered schedulerCallback s' := by
  induction hrun with
  | refl => exact h
  | tail _ hstep ih => exact hstep.registered ih

/-- When no callback and no deletion is due, the entries that are left are those of tasks
that are not done and of cancelled ones. -/
theorem Registered.keys_at_rest {s : Posting σ} (h : Registered schedulerCallback s)
    (hcallbacks : s.callbacks = []) (hdeleting : s.deleting = []) (key : ℕ × String) :
    key ∈ s.postingRequestTasks.keys ↔
      -- an entry stays exactly for tasks that run or were cancelled: no callback removes those
      ∃ task ∈ s.tasks, task.key = key ∧ (task.ended = none ∨ task.ended = some .cancelled) := by
  constructor
  · intro hkey
    obtain ⟨i, hentry⟩ := OrderedDict.mem_keys_iff.mp hkey
    obtain ⟨task, htask, rfl⟩ := h.entries key i hentry
    refine ⟨task, List.mem_of_getElem? htask, rfl, ?_⟩
    cases hended : task.ended with
    | none => exact Or.inl rfl
    | some ending =>
      right
      by_contra hnot
      have hdue := h.due i task ending htask hended (fun heq => hnot (heq ▸ rfl)) hentry
      simp [hcallbacks, hdeleting] at hdue
  · rintro ⟨task, hmem, rfl, hended⟩
    obtain ⟨i, htask⟩ := List.mem_iff_getElem?.mp hmem
    rcases h.registered i task htask with hentry | ⟨ending, hother, hnot⟩
    · exact OrderedDict.mem_keys_iff.mpr ⟨i, hentry⟩
    · rcases hended with hended | hended
      · rw [hother] at hended
        cases hended
      · exact absurd (Option.some.inj (hother.symm.trans hended)) hnot

/-- When no callback and no completion is due, the results in the queue, or taken from it,
are those of all the tasks that returned. -/
theorem Registered.finished_at_rest {s : Posting σ} (h : Registered schedulerCallback s)
    (hcallbacks : s.callbacks = []) (hcompleting : s.completing = []) (i : ℕ)
    (output : Option RequestFuncOutput) (request : Request) :
    (i, output, request) ∈ s.finished ↔ ∃ task, s.tasks[i]? = some task ∧
      task.request = request ∧ task.ended = some (.returned output) := by
  refine ⟨h.finished i output request, ?_⟩
  rintro ⟨task, htask, rfl, hended⟩
  rcases h.completes i task output htask hended with hmem | hmem | hmem
  · simp [hcallbacks] at hmem
  · simp [hcompleting] at hmem
  · obtain ⟨⟨j, output', request'⟩, hput, rfl⟩ := List.mem_map.mp hmem
    -- what was put there is the result of this task
    obtain ⟨other, hother, rfl, hresult⟩ := h.finished j output' request' hput
    obtain rfl := Option.some.inj (htask.symm.trans hother)
    obtain rfl := TaskEnd.returned.inj (Option.some.inj (hended.symm.trans hresult))
    exact hput

/-- In every run: the code cancels no task; every task that is not done is registered, as
itself; results go through the queue in order, each task's once; the scheduler is called
once for each, and `finish_request` for those that succeeded. When nothing is due, all
results were put there, and the entries left are those of running and of cancelled tasks. -/
theorem posting_exactly_once (schedulerCallback : Option (Py σ Unit))
    (finishRequest : RequestFuncOutput → Request → Py σ Unit) (others : σ → σ → Prop)
    (scheduler : σ) {s : Posting σ}
    (hrun : Relation.ReflTransGen (Step schedulerCallback finishRequest others)
      { globalScheduler := scheduler } s) :
    s.cancelRequests = [] ∧
      (∀ i task, s.tasks[i]? = some task → task.ended = none →
        s.postingRequestTasks.get? task.key = some i) ∧
      s.finished.map Prod.snd = s.cleaned ++ s.finishedRequestsQueue ∧
      (s.finished.map Prod.fst).Nodup ∧
      s.schedulerCalls = (if schedulerCallback.isSome then s.finished.length else 0) ∧
      s.finishCalls = s.cleaned.filterMap successful ∧
      (s.callbacks = [] → s.completing = [] → s.deleting = [] →
        (∀ i output request, (i, output, request) ∈ s.finished ↔
          ∃ task, s.tasks[i]? = some task ∧ task.request = request ∧
            task.ended = some (.returned output)) ∧
        ∀ key, key ∈ s.postingRequestTasks.keys ↔ ∃ task ∈ s.tasks, task.key = key ∧
          (task.ended = none ∨ task.ended = some .cancelled)) := by
  have h : Registered schedulerCallback s := run_registered (start_registered scheduler) hrun
  refine ⟨h.notCancelled, ?_, h.fifo, ?_, h.schedulerCalls, h.finishCalls,
    fun hcallbacks hcompleting hdeleting => ⟨h.finished_at_rest hcallbacks hcompleting,
      h.keys_at_rest hcallbacks hdeleting⟩⟩
  · intro i task htask hrunning
    refine (h.registered i task htask).resolve_right ?_
    rintro ⟨ending, hended, -⟩
    rw [hrunning] at hended
    cases hended
  · apply List.nodup_iff_count_le_one.mpr
    intro i
    have honce := h.once i
    omega

/-! ## An instance: a result and a cancellation -/

/-- A request without text. -/
def emptyRequest (id : ℕ) : Request where
  id := id
  hashSessionId := "s"
  inputIds := []
  numPrefillTokens := 0
  outputLen := 1
  arrivedAt := 0

/-- Two posted requests. -/
def twoPosted : Posting Unit :=
  (({ globalScheduler := () } : Posting Unit).addPostingRequestTasks "a"
    (emptyRequest 1)).addPostingRequestTasks "a" (emptyRequest 2)

/-- The first task has returned, the second one was cancelled. -/
def twoEnded : Posting Unit :=
  { twoPosted with
    tasks := [⟨emptyRequest 1, "a", some (.returned (some { success := true }))⟩,
      ⟨emptyRequest 2, "a", some .cancelled⟩]
    callbacks := [0, 1] }

/-- Everything that was due has run, the deletion before the completion. -/
def twoDone : Posting Unit :=
  { twoEnded with
    postingRequestTasks := .single (2, "a") 1
    callbacks := []
    finishedRequestsQueue := [(some { success := true }, emptyRequest 1)]
    finished := [(0, some { success := true }, emptyRequest 1)]
    schedulerCalls := 1 }

theorem twoDone_reached : Relation.ReflTransGen
    (Step (some (pure ())) (fun _ _ => pure ()) (fun _ _ => False)) { globalScheduler := () }
    twoDone := by
  have hposted : Relation.ReflTransGen
      (Step (some (pure ())) (fun _ _ => pure ()) (fun _ _ => False)) { globalScheduler := () }
      twoPosted :=
    (Relation.ReflTransGen.single (.post _ "a" (emptyRequest 1) List.not_mem_nil)).tail
      (.post _ "a" (emptyRequest 2) (by decide))
  have hreturned := hposted.tail
    (.taskEnds twoPosted 0 _ (.returned (some { success := true })) rfl rfl)
  have hended : Relation.ReflTransGen _ _ twoEnded :=
    hreturned.tail (.taskEnds _ 1 ⟨emptyRequest 2, "a", none⟩ .cancelled rfl rfl)
  have hcallback := hended.tail (.callback twoEnded 0 _ _ rfl rfl (by decide))
  have hcallbacks := hcallback.tail
    (.callback _ 1 ⟨emptyRequest 2, "a", some .cancelled⟩ .cancelled rfl rfl (by decide))
  have hdeleted := (hcallbacks.tail (.delete _ 0 _ rfl (by decide))).tail
    (.delete _ 1 ⟨emptyRequest 2, "a", some .cancelled⟩ rfl (by decide))
  exact hdeleted.tail (.complete _ 0
    ⟨emptyRequest 1, "a", some (.returned (some { success := true }))⟩ _ rfl rfl (by decide))

/-- The entry of the cancelled task stays. -/
theorem posting_exactly_once_twoDone :
    (2, "a") ∈ twoDone.postingRequestTasks.keys ∧
      (0, some { success := true }, emptyRequest 1) ∈ twoDone.finished := by
  obtain ⟨-, -, -, -, -, -, hrest⟩ := posting_exactly_once (some (pure ()))
    (fun _ _ => pure ()) (fun _ _ => False) () twoDone_reached
  obtain ⟨hfinished, hkeys⟩ := hrest rfl rfl rfl
  refine ⟨(hkeys (2, "a")).mpr ⟨⟨emptyRequest 2, "a", some .cancelled⟩, ?_, rfl, Or.inr rfl⟩,
    (hfinished 0 _ _).mpr ⟨_, rfl, rfl, rfl⟩⟩
  exact List.mem_cons_of_mem _ List.mem_cons_self

end DualMap.Router.Posting
