import DualMap.Router.ReplicaSelection
import Mathlib.Logic.Relation
import Mathlib.Data.List.Count

/-!
# The Handshake of Generator and Router

The request of every waiting call has an event that is either unset, and then the request is
still on its way through the router, or set, and then the answer beside it is what
`schedule` returned for this very request. `Agreed` says so, and every step keeps it.

Main results:
- `selection_agrees`: requests are scheduled in the order in which they were queued, each at
  most once, and a call posts its request to the replica that the scheduler chose for it;
- `selection_settles`: as long as the router runs, it answers everything: when no step is
  left, no call waits.
-/

namespace DualMap.Router.Selection

variable {σ : Type} {numReplicas : ℕ} {schedule : Request → Py σ (Option ℤ)}

/-! ## The invariant -/

/-- The event is not set, and the request is not scheduled, or is being answered. -/
structure Unanswered (s : Selection σ) (request : Request) (event : ℕ) : Prop where
  unset : s.events[event]? = some false
  entry : s.runtimeEvents.get? request.id = some (some event, none)
  scheduled : s.phase.Alive → request ∈ s.scheduled.map Prod.fst →
    ∃ runtimeId, s.phase = .answering request runtimeId

/-- The event is set, and beside it is what the scheduler returned. -/
structure Answered (s : Selection σ) (request : Request) (event : ℕ) (runtimeId : Option ℤ) :
    Prop where
  set : s.events[event]? = some true
  entry : s.runtimeEvents.get? request.id = some (some event, runtimeId)
  scheduled : (request, runtimeId) ∈ s.scheduled
  phase : ∀ runtimeId, s.phase ≠ .answering request runtimeId

/-- What generator, router and `SharedState` agree on. -/
structure Agreed (numReplicas : ℕ) (s : Selection σ) : Prop where
  ids : (s.requests.map Request.id).Nodup
  fifo : s.entered =
    s.scheduled.map Prod.fst ++ s.phase.beingScheduled.toList ++ s.runtimeRequestQueue
  begun : s.entered.Perm (s.waiting.map Prod.fst ++ s.returned ++ s.raised.map Prod.fst)
  events : (s.waiting.map Prod.snd).Nodup
  keys : ∀ key ∈ s.runtimeEvents.keys, ∃ w ∈ s.waiting, w.1.id = key
  waiting : ∀ w ∈ s.waiting,
    s.Unanswered w.1 w.2 ∨ ∃ runtimeId, s.Answered w.1 w.2 runtimeId
  answering : ∀ request runtimeId, s.phase = .answering request runtimeId →
    (request, runtimeId) ∈ s.scheduled ∧ ∃ event, (request, event) ∈ s.waiting
  returned : ∀ request ∈ s.returned, ∃ runtimeId, (request, some runtimeId) ∈ s.scheduled
  raised : ∀ e ∈ s.raised, e.2 = .runtimeError ∧ (e.1, none) ∈ s.scheduled
  posted : ∀ (r : ℕ) (request : Request), (r, request) ∈ s.posted ↔
    request ∈ s.returned ∧ r < numReplicas ∧ (request, some (r : ℤ)) ∈ s.scheduled
  postedOnce : (s.posted.map Prod.snd).Nodup
  unfinished : s.phase.Alive →
    s.unfinishedTasks = s.runtimeRequestQueue.length + s.phase.unacknowledged
  neverTooOften : s.phase ≠ .doneTooOften

namespace Agreed

variable {s : Selection σ}

/-! ## What follows from distinct ids -/

theorem eq_of_id (h : Agreed numReplicas s) {a b : Request} (ha : a ∈ s.requests)
    (hb : b ∈ s.requests) (hid : a.id = b.id) : a = b :=
  List.inj_on_of_nodup_map h.ids ha hb hid

theorem mem_requests_of_waiting {w : Request × ℕ} (hw : w ∈ s.waiting) :
    w.1 ∈ s.requests := by
  have hmem : w.1 ∈ s.waiting.map Prod.fst := List.mem_map_of_mem hw
  simp [requests, hmem]

theorem requests_nodup (h : Agreed numReplicas s) : s.requests.Nodup := List.Nodup.of_map _ h.ids

/-- Every request waits once. -/
theorem waiting_nodup (h : Agreed numReplicas s) : (s.waiting.map Prod.fst).Nodup := by
  have hnodup := h.requests_nodup
  rw [requests, List.append_assoc, List.append_assoc] at hnodup
  exact (List.nodup_append.mp (List.nodup_append.mp hnodup).2.1).1

theorem eq_of_waiting (h : Agreed numReplicas s) {w w' : Request × ℕ} (hw : w ∈ s.waiting)
    (hw' : w' ∈ s.waiting) (hid : w.1.id = w'.1.id) : w = w' :=
  List.inj_on_of_nodup_map h.waiting_nodup hw hw'
    (h.eq_of_id (mem_requests_of_waiting hw) (mem_requests_of_waiting hw') hid)

/-- A request is queued once. -/
theorem entered_nodup (h : Agreed numReplicas s) : s.entered.Nodup := by
  have hnodup := h.requests_nodup
  rw [requests, List.append_assoc, List.append_assoc] at hnodup
  rw [h.begun.nodup_iff, List.append_assoc]
  exact (List.nodup_append.mp hnodup).2.1

/-- So it is scheduled at most once. -/
theorem scheduled_nodup (h : Agreed numReplicas s) : (s.scheduled.map Prod.fst).Nodup := by
  have hnodup := h.entered_nodup
  rw [h.fifo, List.append_assoc] at hnodup
  exact (List.nodup_append.mp hnodup).1

theorem answer_unique (h : Agreed numReplicas s) {request : Request}
    {runtimeId runtimeId' : Option ℤ} (hid : (request, runtimeId) ∈ s.scheduled)
    (hid' : (request, runtimeId') ∈ s.scheduled) : runtimeId = runtimeId' :=
  congrArg Prod.snd (List.inj_on_of_nodup_map h.scheduled_nodup hid hid' rfl)

/-- What the router has taken and not scheduled waits, unanswered. -/
theorem waits_of_scheduling (h : Agreed numReplicas s) {request : Request}
    (hphase : s.phase = .scheduling request) :
    request ∉ s.scheduled.map Prod.fst ∧ ∃ event, (request, event) ∈ s.waiting := by
  have hnodup := h.entered_nodup
  have hentered : request ∈ s.entered := by simp [h.fifo, hphase, RouterPhase.beingScheduled]
  have hnot : request ∉ s.scheduled.map Prod.fst := by
    intro hmem
    rw [h.fifo, hphase, List.append_assoc] at hnodup
    exact List.disjoint_of_nodup_append hnodup hmem (by simp [RouterPhase.beingScheduled])
  refine ⟨hnot, ?_⟩
  -- the calls that have ended were answered
  rcases List.mem_append.mp (h.begun.subset hentered) with hopen | hraised
  · rcases List.mem_append.mp hopen with hwaiting | hreturned
    · obtain ⟨⟨_, event⟩, hmem, rfl⟩ := List.mem_map.mp hwaiting
      exact ⟨event, hmem⟩
    · obtain ⟨runtimeId, hmem⟩ := h.returned request hreturned
      exact absurd (List.mem_map_of_mem hmem) hnot
  · obtain ⟨e, hmem, rfl⟩ := List.mem_map.mp hraised
    exact absurd (List.mem_map_of_mem (h.raised e hmem).2) hnot

/-- The number of an event is below that of the next one. -/
theorem event_lt (h : Agreed numReplicas s) {w : Request × ℕ} (hw : w ∈ s.waiting) :
    w.2 < s.events.length := by
  rcases h.waiting w hw with hopen | ⟨runtimeId, hdone⟩
  · exact (List.getElem?_eq_some_iff.mp hopen.unset).1
  · exact (List.getElem?_eq_some_iff.mp hdone.set).1

/-! ## The steps keep it -/

/-- A call begins: its event is a new one, and no entry has its key. -/
theorem enter (h : Agreed numReplicas s) {request : Request} (hstarting : request ∈ s.starting) :
    Agreed numReplicas (s.enter request) := by
  have hmem : request ∈ s.requests := by simp [requests, hstarting]
  have hnodup := h.requests_nodup
  have hnot : request ∉ s.waiting.map Prod.fst ++ s.returned ++ s.raised.map Prod.fst := by
    rw [requests, List.append_assoc, List.append_assoc] at hnodup
    rw [List.append_assoc]
    exact fun hother => List.disjoint_of_nodup_append hnodup hstarting hother
  -- the new call moves from the starting to the waiting ones
  have hperm : (s.enter request).requests.Perm s.requests := by
    apply List.perm_iff_count.mpr
    intro a
    have hcount := (List.perm_cons_erase hstarting).count_eq a
    simp only [requests, Selection.enter, List.map_append, List.map_cons, List.map_nil,
      List.count_append, List.count_cons, List.count_nil] at hcount ⊢
    omega
  have hnew : ∀ w ∈ s.waiting, w.1.id ≠ request.id := by
    intro w hw hid
    have hsame := h.eq_of_id (mem_requests_of_waiting hw) hmem hid
    exact hnot (List.mem_append_left _ (List.mem_append_left _
      (hsame ▸ List.mem_map_of_mem hw)))
  have hkey : request.id ∉ s.runtimeEvents.keys := by
    intro hkey
    obtain ⟨w, hw, hid⟩ := h.keys request.id hkey
    exact hnew w hw hid
  have hunscheduled : request ∉ s.scheduled.map Prod.fst := by
    intro hscheduled
    apply hnot
    apply h.begun.subset
    rw [h.fifo]
    exact List.mem_append_left _ (List.mem_append_left _ hscheduled)
  refine ⟨?_, ?_, ?_, ?_, ?_, ?_, ?_, h.returned, h.raised, h.posted, h.postedOnce, ?_,
    h.neverTooOften⟩
  · exact (hperm.map Request.id).nodup_iff.mpr h.ids
  · simp [Selection.enter, h.fifo]
  · apply List.perm_iff_count.mpr
    intro a
    have hcount := h.begun.count_eq a
    simp only [Selection.enter, List.map_append, List.map_cons, List.map_nil,
      List.count_append] at hcount ⊢
    omega
  · simp only [Selection.enter, List.map_append, List.map_cons, List.map_nil]
    apply List.nodup_append.mpr
    refine ⟨h.events, List.nodup_singleton _, ?_⟩
    intro event hevent b hb
    obtain ⟨w, hw, rfl⟩ := List.mem_map.mp hevent
    rw [List.mem_singleton.mp hb]
    exact (h.event_lt hw).ne
  · intro key hkeys
    rcases OrderedDict.mem_keys_set.mp hkeys with rfl | hold
    · exact ⟨(request, s.events.length), by simp [Selection.enter], rfl⟩
    · obtain ⟨w, hw, hid⟩ := h.keys key hold
      exact ⟨w, List.mem_append_left _ hw, hid⟩
  · intro w hw
    rcases List.mem_append.mp hw with hold | hnewest
    · -- the other events and entries are as before
      have hevent : (s.enter request).events[w.2]? = s.events[w.2]? :=
        List.getElem?_append_left (h.event_lt hold)
      have hentry : (s.enter request).runtimeEvents.get? w.1.id = s.runtimeEvents.get? w.1.id :=
        OrderedDict.get?_set_of_ne _ _ (hnew w hold)
      rcases h.waiting w hold with hopen | ⟨runtimeId, hdone⟩
      · exact Or.inl ⟨hevent.trans hopen.unset, hentry.trans hopen.entry, hopen.scheduled⟩
      · exact Or.inr ⟨runtimeId, hevent.trans hdone.set, hentry.trans hdone.entry,
          hdone.scheduled, hdone.phase⟩
    · rw [List.mem_singleton.mp hnewest]
      refine Or.inl ⟨?_, OrderedDict.get?_set_self _ _ _, fun _ hmem => absurd hmem hunscheduled⟩
      simp [Selection.enter]
  · intro request' runtimeId hphase
    obtain ⟨hscheduled, event, hevent⟩ := h.answering request' runtimeId hphase
    exact ⟨hscheduled, event, List.mem_append_left _ hevent⟩
  · intro halive
    have hunfinished := h.unfinished halive
    simp only [Selection.enter, List.length_append, List.length_singleton]
    omega

/-- The router takes the first request of the queue. -/
theorem get (h : Agreed numReplicas s) {request : Request} {rest : List Request}
    (hphase : s.phase = .idle) (hqueue : s.runtimeRequestQueue = request :: rest) :
    Agreed numReplicas { s with runtimeRequestQueue := rest, phase := .scheduling request } := by
  refine ⟨h.ids, ?_, h.begun, h.events, h.keys, ?_, by simp, h.returned, h.raised, h.posted,
    h.postedOnce, ?_, by simp⟩
  · simp [h.fifo, hphase, hqueue, RouterPhase.beingScheduled]
  · intro w hw
    rcases h.waiting w hw with hopen | ⟨runtimeId, hdone⟩
    · refine Or.inl ⟨hopen.unset, hopen.entry, fun _ hmem => ?_⟩
      obtain ⟨runtimeId, hanswering⟩ := hopen.scheduled (by simp [hphase, RouterPhase.Alive]) hmem
      simp [hphase] at hanswering
    · exact Or.inr ⟨runtimeId, hdone.set, hdone.entry, hdone.scheduled, by simp⟩
  · intro _
    have hunfinished := h.unfinished (by simp [hphase, RouterPhase.Alive])
    simpa [hphase, hqueue, RouterPhase.unacknowledged] using hunfinished

/-- When the loop stops, what waits for it stays as it is. -/
theorem stop (h : Agreed numReplicas s) (fault : Fault) (scheduler : σ) :
    Agreed numReplicas { s with
      globalScheduler := scheduler, phase := .stopped fault s.phase.beingScheduled } := by
  refine ⟨h.ids, h.fifo, h.begun, h.events, h.keys, ?_, by simp, h.returned, h.raised, h.posted,
    h.postedOnce, fun halive => halive.elim, by simp⟩
  intro w hw
  rcases h.waiting w hw with hopen | ⟨runtimeId, hdone⟩
  · exact Or.inl ⟨hopen.unset, hopen.entry, fun halive => halive.elim⟩
  · exact Or.inr ⟨runtimeId, hdone.set, hdone.entry, hdone.scheduled, by simp⟩

/-- The scheduler returns or raises. -/
theorem runSchedule (h : Agreed numReplicas s) {request : Request}
    (hphase : s.phase = .scheduling request) :
    Agreed numReplicas (s.runSchedule schedule request) := by
  obtain ⟨hnot, event, hwaits⟩ := h.waits_of_scheduling hphase
  unfold Selection.runSchedule
  cases schedule request s.globalScheduler with
  | error fault scheduler =>
    have hstop := h.stop fault scheduler
    rwa [hphase] at hstop
  | ok runtimeId scheduler =>
    have hold {x : Request × Option ℤ} (hx : x ∈ s.scheduled) :
        x ∈ s.scheduled ++ [(request, runtimeId)] := List.mem_append_left _ hx
    refine ⟨h.ids, ?_, h.begun, h.events, h.keys, ?_, ?_, ?_, ?_, ?_, h.postedOnce, ?_, by simp⟩
    · simp [h.fifo, hphase, RouterPhase.beingScheduled]
    · intro w hw
      rcases h.waiting w hw with hopen | ⟨answer, hdone⟩
      · refine Or.inl ⟨hopen.unset, hopen.entry, fun _ hmem => ?_⟩
        rw [List.map_append] at hmem
        rcases List.mem_append.mp hmem with hbefore | hnow
        · obtain ⟨answer, hanswering⟩ :=
            hopen.scheduled (by simp [hphase, RouterPhase.Alive]) hbefore
          simp [hphase] at hanswering
        · exact ⟨runtimeId, by rw [List.mem_singleton.mp hnow]⟩
      · refine Or.inr ⟨answer, hdone.set, hdone.entry, hold hdone.scheduled, ?_⟩
        -- an answered request was scheduled before this one
        intro runtimeId' hsame
        rw [(RouterPhase.answering.inj hsame).1] at hnot
        exact hnot (List.mem_map_of_mem hdone.scheduled)
    · intro request' runtimeId' hsame
      obtain ⟨rfl, rfl⟩ : request = request' ∧ runtimeId = runtimeId' := by simpa using hsame
      exact ⟨List.mem_append_right _ (List.mem_singleton.mpr rfl), event, hwaits⟩
    · intro request' hrequest'
      obtain ⟨answer, hanswer⟩ := h.returned request' hrequest'
      exact ⟨answer, hold hanswer⟩
    · intro e he
      exact ⟨(h.raised e he).1, hold (h.raised e he).2⟩
    · intro r request'
      rw [h.posted]
      -- a call that has returned was answered before
      constructor
      · rintro ⟨hreturned, hr, hmem⟩
        exact ⟨hreturned, hr, hold hmem⟩
      · rintro ⟨hreturned, hr, hmem⟩
        refine ⟨hreturned, hr, ?_⟩
        rcases List.mem_append.mp hmem with hbefore | hnow
        · exact hbefore
        · obtain ⟨answer, hanswer⟩ := h.returned request' hreturned
          rw [(Prod.mk.inj (List.mem_singleton.mp hnow)).1] at hanswer
          exact absurd (List.mem_map_of_mem hanswer) hnot
    · intro _
      have hunfinished := h.unfinished (by simp [hphase, RouterPhase.Alive])
      simpa [hphase, RouterPhase.unacknowledged] using hunfinished

/-- The router answers: the event beside the entry is that of the waiting call. -/
theorem scheduleRequestToReplica (h : Agreed numReplicas s) {request : Request}
    {runtimeId : Option ℤ} (hphase : s.phase = .answering request runtimeId) :
    Agreed numReplicas (s.scheduleRequestToReplica request runtimeId) := by
  obtain ⟨hscheduled, event, hwaits⟩ := h.answering request runtimeId hphase
  have hopen : s.Unanswered request event := by
    rcases h.waiting _ hwaits with hopen | ⟨answer, hdone⟩
    · exact hopen
    · exact absurd hphase (hdone.phase runtimeId)
  have hunfinished := h.unfinished (by simp [hphase, RouterPhase.Alive])
  have hlt := h.event_lt hwaits
  -- the entry is there and its event unset: neither the missing key nor a second `set` occurs
  have hanswer : s.scheduleRequestToReplica request runtimeId = { s with
      runtimeEvents := s.runtimeEvents.set request.id (some event, runtimeId)
      events := s.events.set event true
      unfinishedTasks := s.unfinishedTasks - 1
      phase := .idle } := by
    have hpos : s.unfinishedTasks ≠ 0 := by
      rw [hunfinished, hphase]
      exact Nat.succ_ne_zero _
    simp [Selection.scheduleRequestToReplica, hopen.entry, Selection.taskDone, hpos]
  rw [hanswer]
  refine ⟨h.ids, ?_, h.begun, h.events, ?_, ?_, by simp, h.returned, h.raised, h.posted,
    h.postedOnce, ?_, by simp⟩
  · simp [h.fifo, hphase, RouterPhase.beingScheduled]
  · intro key hkeys
    rcases OrderedDict.mem_keys_set.mp hkeys with rfl | hold
    · exact ⟨_, hwaits, rfl⟩
    · exact h.keys key hold
  · intro w hw
    -- the answered call becomes done; the others keep flag and entry
    by_cases hsame : w = (request, event)
    · rw [hsame]
      refine Or.inr ⟨runtimeId, ?_, OrderedDict.get?_set_self _ _ _, hscheduled, by simp⟩
      simp [hlt]
    · -- another call waits for another event, with another id
      have hid : w.1.id ≠ request.id := fun hid => hsame (h.eq_of_waiting hw hwaits hid)
      have hevent : w.2 ≠ event := fun hevent =>
        hsame (List.inj_on_of_nodup_map h.events hw hwaits hevent)
      have hflag : (s.events.set event true)[w.2]? = s.events[w.2]? :=
        List.getElem?_set_ne hevent.symm
      have hentry := OrderedDict.get?_set_of_ne s.runtimeEvents (some event, runtimeId) hid
      rcases h.waiting w hw with hopen' | ⟨answer, hdone⟩
      · refine Or.inl ⟨hflag.trans hopen'.unset, hentry.trans hopen'.entry, fun _ hmem => ?_⟩
        obtain ⟨answer, hanswering⟩ :=
          hopen'.scheduled (by simp [hphase, RouterPhase.Alive]) hmem
        have hreq : request = w.1 := by
          rw [hphase] at hanswering
          exact (RouterPhase.answering.inj hanswering).1
        exact absurd (congrArg Request.id hreq).symm hid
      · exact Or.inr ⟨answer, hflag.trans hdone.set, hentry.trans hdone.entry, hdone.scheduled,
          by simp⟩
  · intro _
    rw [hunfinished, hphase]
    rfl

/-- A waiting call ends in any way that fits its answer. -/
theorem ends (h : Agreed numReplicas s) {request : Request} {event : ℕ}
    (hwaits : (request, event) ∈ s.waiting) {returned : List Request}
    {raised : List (Request × PyException)} {posted : List (ℕ × Request)}
    (hends : (returned ++ raised.map Prod.fst).Perm
      (request :: (s.returned ++ s.raised.map Prod.fst)))
    (hreturned : ∀ r ∈ returned, ∃ runtimeId, (r, some runtimeId) ∈ s.scheduled)
    (hraised : ∀ e ∈ raised, e.2 = .runtimeError ∧ (e.1, none) ∈ s.scheduled)
    (hposted : ∀ (r : ℕ) (request : Request), (r, request) ∈ posted ↔
      request ∈ returned ∧ r < numReplicas ∧ (request, some (r : ℤ)) ∈ s.scheduled)
    (hpostedOnce : (posted.map Prod.snd).Nodup)
    (hphase : ∀ runtimeId, s.phase ≠ .answering request runtimeId) :
    Agreed numReplicas { s with
      waiting := s.waiting.erase (request, event)
      runtimeEvents := s.runtimeEvents.erase request.id
      returned := returned
      raised := raised
      posted := posted } := by
  have herase := (List.perm_cons_erase hwaits).map Prod.fst
  rw [List.map_cons] at herase
  -- the request moves from the waiting calls to those that have ended
  have hmoves : ((s.waiting.erase (request, event)).map Prod.fst ++ returned ++
      raised.map Prod.fst).Perm
        (s.waiting.map Prod.fst ++ s.returned ++ s.raised.map Prod.fst) := by
    apply List.perm_iff_count.mpr
    intro a
    have hcount := herase.count_eq a
    have hcount' := hends.count_eq a
    simp only [List.count_append, List.count_cons] at hcount hcount' ⊢
    omega
  -- the calls that go on waiting are for other requests
  have hother {w : Request × ℕ} (hw : w ∈ s.waiting.erase (request, event)) :
      w.1.id ≠ request.id := by
    intro hid
    have hsame := h.eq_of_waiting (List.mem_of_mem_erase hw) hwaits hid
    have hnodup : s.waiting.Nodup := List.Nodup.of_map _ h.waiting_nodup
    exact hnodup.not_mem_erase (hsame ▸ hw)
  refine ⟨?_, h.fifo, h.begun.trans hmoves.symm, ?_, ?_, ?_, ?_, hreturned, hraised, hposted,
    hpostedOnce, h.unfinished, h.neverTooOften⟩
  · have hall := (hmoves.append_left s.starting).map Request.id
    have hids := h.ids
    simp only [requests, List.append_assoc] at hids hall ⊢
    exact hall.nodup_iff.mpr hids
  · exact h.events.sublist (List.erase_sublist.map _)
  · intro key hkey
    obtain ⟨hne, hkey⟩ := OrderedDict.mem_keys_erase.mp hkey
    obtain ⟨w, hw, hid⟩ := h.keys key hkey
    refine ⟨w, ?_, hid⟩
    rw [List.mem_erase_of_ne]
    · exact hw
    · rintro rfl
      exact hne hid.symm
  · intro w hw
    have hentry := OrderedDict.get?_erase_of_ne s.runtimeEvents (hother hw)
    rcases h.waiting w (List.mem_of_mem_erase hw) with hopen | ⟨answer, hdone⟩
    · exact Or.inl ⟨hopen.unset, hentry.trans hopen.entry, hopen.scheduled⟩
    · exact Or.inr ⟨answer, hdone.set, hentry.trans hdone.entry, hdone.scheduled, hdone.phase⟩
  · intro request' runtimeId hanswering
    obtain ⟨hscheduled, event', hevent'⟩ := h.answering request' runtimeId hanswering
    refine ⟨hscheduled, event', (List.mem_erase_of_ne ?_).mpr hevent'⟩
    intro hsame
    rw [(Prod.mk.inj hsame).1] at hanswering
    exact hphase runtimeId hanswering

/-- A call wakes up, reads its answer and ends. -/
theorem wake (h : Agreed numReplicas s) {request : Request} {event : ℕ}
    (hwaits : (request, event) ∈ s.waiting) (hset : s.events[event]? = some true) :
    Agreed numReplicas (s.wake numReplicas request event) := by
  obtain ⟨answer, hdone⟩ : ∃ answer, s.Answered request event answer := by
    rcases h.waiting _ hwaits with hopen | hdone
    · simp [hopen.unset] at hset
    · exact hdone
  have hmem : request ∈ s.waiting.map Prod.fst := List.mem_map_of_mem hwaits
  have hnot : request ∉ s.returned := by
    intro hreturned
    have hnodup := h.requests_nodup
    rw [requests, List.append_assoc, List.append_assoc] at hnodup
    exact List.disjoint_of_nodup_append (List.nodup_append.mp hnodup).2.1 hmem
      (List.mem_append_left _ hreturned)
  have hreturned : (s.returned ++ [request] ++ s.raised.map Prod.fst).Perm
      (request :: (s.returned ++ s.raised.map Prod.fst)) := by
    rw [List.append_assoc, List.singleton_append]
    exact List.perm_middle
  have hanswered {runtimeId : ℤ} (hanswer : (request, some runtimeId) ∈ s.scheduled) :
      ∀ r ∈ s.returned ++ [request], ∃ runtimeId, (r, some runtimeId) ∈ s.scheduled := by
    intro r hr
    rcases List.mem_append.mp hr with hold | hnow
    · exact h.returned r hold
    · rw [List.mem_singleton.mp hnow]
      exact ⟨runtimeId, hanswer⟩
  have hscheduled := hdone.scheduled
  simp only [Selection.wake, hdone.entry]
  cases answer with
  | none =>
    -- `RuntimeError`: the scheduler chose no replica
    apply h.ends hwaits _ h.returned _ h.posted h.postedOnce hdone.phase
    · rw [List.map_append, ← List.append_assoc]
      exact List.perm_append_singleton request _
    · intro e he
      rcases List.mem_append.mp he with hold | hnow
      · exact h.raised e hold
      · rw [List.mem_singleton.mp hnow]
        exact ⟨rfl, hscheduled⟩
  | some replicaId =>
    by_cases hrange : 0 ≤ replicaId ∧ replicaId < numReplicas
    · have hcast : ((replicaId.toNat : ℕ) : ℤ) = replicaId := Int.toNat_of_nonneg hrange.1
      have hpos : ¬ replicaId < 0 := by omega
      simp only [Selection.finish, if_neg hpos, if_pos hrange.2]
      apply h.ends hwaits hreturned (hanswered hscheduled) h.raised _ _ hdone.phase
      · intro r request'
        simp only [List.mem_append, List.mem_singleton, Prod.mk.injEq]
        constructor
        · rintro (hold | ⟨rfl, rfl⟩)
          · obtain ⟨hret, hr, hans⟩ := (h.posted r request').mp hold
            exact ⟨Or.inl hret, hr, hans⟩
          · refine ⟨Or.inr rfl, by omega, ?_⟩
            rw [hcast]
            exact hscheduled
        · rintro ⟨hret | rfl, hr, hans⟩
          · exact Or.inl ((h.posted r request').mpr ⟨hret, hr, hans⟩)
          · -- the answer is the only one
            right
            have hsame := Option.some.inj (h.answer_unique hans hscheduled)
            exact ⟨by omega, rfl⟩
      · rw [List.map_append]
        apply List.nodup_append.mpr
        refine ⟨h.postedOnce, List.nodup_singleton _, ?_⟩
        intro a ha b hb hab
        obtain ⟨⟨r, request'⟩, hposted, rfl⟩ := List.mem_map.mp ha
        rw [List.mem_singleton.mp hb] at hab
        have hreq : request' = request := hab
        exact hnot (hreq ▸ ((h.posted r request').mp hposted).1)
    · -- a negative answer, or one that names no replica: nothing is posted
      have hfinish : finish numReplicas request (some replicaId) { s with
          waiting := s.waiting.erase (request, event)
          runtimeEvents := s.runtimeEvents.erase request.id } = { s with
          waiting := s.waiting.erase (request, event)
          runtimeEvents := s.runtimeEvents.erase request.id
          returned := s.returned ++ [request] } := by
        simp only [Selection.finish]
        split
        · rfl
        · rw [if_neg (by omega)]
      rw [hfinish]
      apply h.ends hwaits hreturned (hanswered hscheduled) h.raised _ h.postedOnce hdone.phase
      intro r request'
      rw [h.posted]
      simp only [List.mem_append, List.mem_singleton]
      constructor
      · rintro ⟨hret, hr, hans⟩
        exact ⟨Or.inl hret, hr, hans⟩
      · rintro ⟨hret | rfl, hr, hans⟩
        · exact ⟨hret, hr, hans⟩
        · have hsame := Option.some.inj (h.answer_unique hans hscheduled)
          omega

/-- A new call, whose id is not in use. -/
theorem call (h : Agreed numReplicas s) {request : Request}
    (hnew : request.id ∉ s.requests.map Request.id) :
    Agreed numReplicas { s with starting := s.starting ++ [request] } := by
  refine ⟨?_, h.fifo, h.begun, h.events, h.keys, ?_, h.answering, h.returned, h.raised, h.posted,
    h.postedOnce, h.unfinished, h.neverTooOften⟩
  · have hperm : (requests { s with starting := s.starting ++ [request] }).Perm
        (request :: s.requests) := by
      simp only [requests, List.append_assoc, List.singleton_append]
      exact List.perm_middle
    exact (hperm.map Request.id).nodup_iff.mpr (List.nodup_cons.mpr ⟨hnew, h.ids⟩)
  · intro w hw
    rcases h.waiting w hw with hopen | ⟨answer, hdone⟩
    · exact Or.inl ⟨hopen.unset, hopen.entry, hopen.scheduled⟩
    · exact Or.inr ⟨answer, hdone.set, hdone.entry, hdone.scheduled, hdone.phase⟩

/-- The scheduler is changed by others. -/
theorem others (h : Agreed numReplicas s) (scheduler : σ) :
    Agreed numReplicas { s with globalScheduler := scheduler } := by
  refine ⟨h.ids, h.fifo, h.begun, h.events, h.keys, ?_, h.answering, h.returned, h.raised,
    h.posted, h.postedOnce, h.unfinished, h.neverTooOften⟩
  intro w hw
  rcases h.waiting w hw with hopen | ⟨answer, hdone⟩
  · exact Or.inl ⟨hopen.unset, hopen.entry, hopen.scheduled⟩
  · exact Or.inr ⟨answer, hdone.set, hdone.entry, hdone.scheduled, hdone.phase⟩

end Agreed

theorem Internal.agreed {s s' : Selection σ} (h : Agreed numReplicas s)
    (hstep : Internal numReplicas schedule s s') : Agreed numReplicas s' := by
  cases hstep with
  | enter request hstarting => exact h.enter hstarting
  | get request rest hphase hqueue => exact h.get hphase hqueue
  | schedule request hphase => exact h.runSchedule hphase
  | answer request runtimeId hphase => exact h.scheduleRequestToReplica hphase
  | wake request event hwaits hset => exact h.wake hwaits hset

theorem Step.agreed {others : σ → σ → Prop} {s s' : Selection σ} (h : Agreed numReplicas s)
    (hstep : Step numReplicas schedule others s s') : Agreed numReplicas s' := by
  cases hstep with
  | internal hstep => exact hstep.agreed h
  | call request hnew => exact h.call hnew
  | others scheduler _ => exact h.others scheduler
  | stop => exact h.stop .cancelled s.globalScheduler

theorem start_agreed (scheduler : σ) :
    Agreed numReplicas ({ globalScheduler := scheduler } : Selection σ) where
  ids := List.nodup_nil
  fifo := rfl
  begun := List.Perm.refl _
  events := List.nodup_nil
  keys := fun _ h => absurd h List.not_mem_nil
  waiting := fun _ h => absurd h List.not_mem_nil
  answering := fun _ _ h => RouterPhase.noConfusion h
  returned := fun _ h => absurd h List.not_mem_nil
  raised := fun _ h => absurd h List.not_mem_nil
  posted := by simp
  postedOnce := List.nodup_nil
  unfinished := fun _ => rfl
  neverTooOften := RouterPhase.noConfusion

theorem run_agreed {others : σ → σ → Prop} {s s' : Selection σ} (h : Agreed numReplicas s)
    (hrun : Relation.ReflTransGen (Step numReplicas schedule others) s s') :
    Agreed numReplicas s' := by
  induction hrun with
  | refl => exact h
  | tail _ hstep ih => exact hstep.agreed ih

/-- Only a call of `schedule`, or others, change the scheduler. -/
theorem Step.scheduler_cases {others : σ → σ → Prop} {s s' : Selection σ}
    (hstep : Step numReplicas schedule others s s') :
    (s'.globalScheduler = s.globalScheduler ∧ s'.scheduled = s.scheduled) ∨
      (∃ request, s' = s.runSchedule schedule request) ∨
      others s.globalScheduler s'.globalScheduler := by
  cases hstep with
  | internal hstep =>
    cases hstep with
    | enter request hstarting => exact Or.inl ⟨rfl, rfl⟩
    | get request rest hphase hqueue => exact Or.inl ⟨rfl, rfl⟩
    | schedule request hphase => exact Or.inr (Or.inl ⟨request, rfl⟩)
    | answer request runtimeId hphase =>
      left
      simp only [scheduleRequestToReplica, taskDone]
      split
      · split
        · split <;> exact ⟨rfl, rfl⟩
        · exact ⟨rfl, rfl⟩
      · exact ⟨rfl, rfl⟩
    | wake request event hwaits hset =>
      left
      simp only [Selection.wake, finish]
      split
      · exact ⟨rfl, rfl⟩
      · split
        · exact ⟨rfl, rfl⟩
        · split
          · exact ⟨rfl, rfl⟩
          · split <;> exact ⟨rfl, rfl⟩
  | call request hnew => exact Or.inl ⟨rfl, rfl⟩
  | others scheduler h => exact Or.inr (Or.inr h)
  | stop => exact Or.inl ⟨rfl, rfl⟩

/-- In every run, whatever the scheduler answers: requests are scheduled in the order in
which they were queued, none of them twice; a call posts its request exactly when the
scheduler chose a replica that exists, and there; it raises exactly when the scheduler chose
none; and `runtime_events` has the requests of the waiting calls as its keys. -/
theorem selection_agrees (numReplicas : ℕ) (schedule : Request → Py σ (Option ℤ))
    (others : σ → σ → Prop) (scheduler : σ) {s : Selection σ}
    (hrun : Relation.ReflTransGen (Step numReplicas schedule others)
      { globalScheduler := scheduler } s) :
    (s.scheduled.map Prod.fst <+: s.entered ∧ s.entered.Nodup) ∧
      (∀ (r : ℕ) (request : Request), (r, request) ∈ s.posted ↔
        request ∈ s.returned ∧ r < numReplicas ∧ (request, some (r : ℤ)) ∈ s.scheduled) ∧
      (s.posted.map Prod.snd).Nodup ∧
      (∀ (request : Request) (e : PyException), (request, e) ∈ s.raised →
        e = .runtimeError ∧ (request, none) ∈ s.scheduled) ∧
      (∀ request ∈ s.returned, ∃ runtimeId, (request, some runtimeId) ∈ s.scheduled) ∧
      (∀ key, key ∈ s.runtimeEvents.keys ↔ ∃ w ∈ s.waiting, w.1.id = key) ∧
      s.phase ≠ .doneTooOften := by
  have h := run_agreed (start_agreed scheduler) hrun
  have hinOrder : s.scheduled.map Prod.fst <+: s.entered := by
    rw [h.fifo, List.append_assoc]
    exact List.prefix_append _ _
  refine ⟨⟨hinOrder, h.entered_nodup⟩, h.posted, h.postedOnce, fun request e he => h.raised _ he,
    h.returned, ?_, h.neverTooOften⟩
  · intro key
    refine ⟨h.keys key, ?_⟩
    rintro ⟨w, hw, rfl⟩
    -- a waiting call has its entry, answered or not
    rcases h.waiting w hw with hopen | ⟨answer, hdone⟩
    · exact OrderedDict.mem_keys_iff.mpr ⟨_, hopen.entry⟩
    · exact OrderedDict.mem_keys_iff.mpr ⟨_, hdone.entry⟩

/-! ## Everything is answered -/

/-- The steps of the loop until it takes the next request. -/
def phaseSteps : RouterPhase → ℕ
  | .scheduling _ => 2
  | .answering _ _ => 1
  | _ => 0

/-- A bound on the steps that are left without new calls. -/
def remaining (s : Selection σ) : ℕ :=
  5 * s.starting.length + 3 * s.runtimeRequestQueue.length + s.waiting.length +
    phaseSteps s.phase

theorem Internal.remaining_lt {s s' : Selection σ}
    (hstep : Internal numReplicas schedule s s') : s'.remaining < s.remaining := by
  cases hstep with
  | enter request hstarting =>
    have hlength := (List.perm_cons_erase hstarting).length_eq
    simp only [remaining, Selection.enter, List.length_append, List.length_cons,
      List.length_nil] at hlength ⊢
    omega
  | get request rest hphase hqueue =>
    simp only [remaining, hphase, hqueue, List.length_cons, phaseSteps]
    omega
  | schedule request hphase =>
    simp only [remaining, runSchedule, hphase]
    split <;> simp [phaseSteps]
  | answer request runtimeId hphase =>
    simp only [remaining, scheduleRequestToReplica, taskDone, hphase]
    split
    · split
      · split <;> simp [phaseSteps]
      · simp [phaseSteps]
    · simp [phaseSteps]
  | wake request event hwaits hset =>
    have hlength := (List.perm_cons_erase hwaits).length_eq
    -- whatever it read, the call only leaves the waiting ones
    have hwake : (s.wake numReplicas request event).remaining =
        5 * s.starting.length + 3 * s.runtimeRequestQueue.length +
          (s.waiting.erase (request, event)).length + phaseSteps s.phase := by
      simp only [Selection.wake, finish]
      split
      · rfl
      · split
        · rfl
        · split
          · rfl
          · split <;> rfl
    rw [hwake, remaining]
    rw [List.length_cons] at hlength
    omega

/-- The router can go on, or nothing is left to do. -/
theorem Agreed.settled {s : Selection σ} (h : Agreed numReplicas s) (halive : s.phase.Alive)
    (hstuck : ∀ s', ¬ Internal numReplicas schedule s s') :
    s.starting = [] ∧ s.waiting = [] ∧ s.runtimeRequestQueue = [] ∧ s.phase = .idle := by
  -- whatever is left over would be a step that the router or a call can take
  have hstarting : s.starting = [] := by
    by_contra hsome
    obtain ⟨request, hmem⟩ := List.exists_mem_of_ne_nil _ hsome
    exact hstuck _ (.enter s request hmem)
  have hidle : s.phase = .idle := by
    cases hphase : s.phase with
    | idle => rfl
    | scheduling request => exact absurd (.schedule s request hphase) (hstuck _)
    | answering request runtimeId =>
      exact absurd (.answer s request runtimeId hphase) (hstuck _)
    | stopped fault unscheduled =>
      rw [hphase] at halive
      exact halive.elim
    | doneTooOften => exact absurd hphase h.neverTooOften
  have hqueue : s.runtimeRequestQueue = [] := by
    cases hqueue : s.runtimeRequestQueue with
    | nil => rfl
    | cons request rest => exact absurd (.get s request rest hidle hqueue) (hstuck _)
  refine ⟨hstarting, ?_, hqueue, hidle⟩
  by_contra hsome
  obtain ⟨w, hw⟩ := List.exists_mem_of_ne_nil _ hsome
  rcases h.waiting w hw with hopen | ⟨answer, hdone⟩
  · -- it was queued, so it was scheduled, so it is being answered
    have hentered : w.1 ∈ s.entered := h.begun.symm.subset
      (List.mem_append_left _ (List.mem_append_left _ (List.mem_map_of_mem hw)))
    rw [h.fifo, hidle, hqueue] at hentered
    obtain ⟨runtimeId, hanswering⟩ := hopen.scheduled halive
      (by simpa [RouterPhase.beingScheduled] using hentered)
    rw [hidle] at hanswering
    cases hanswering
  · exact hstuck _ (.wake s w.1 w.2 hw hdone.set)

/-- Where all calls have ended and the router is idle, no step is possible. -/
theorem not_internal {s : Selection σ} (hstarting : s.starting = []) (hwaiting : s.waiting = [])
    (hqueue : s.runtimeRequestQueue = []) (hphase : s.phase = .idle) (s' : Selection σ) :
    ¬ Internal numReplicas schedule s s' := by
  intro hstep
  cases hstep with
  | enter request hmem => simp [hstarting] at hmem
  | get request rest _ hmore => simp [hqueue] at hmore
  | schedule request hother => simp [hphase] at hother
  | answer request runtimeId hother => simp [hphase] at hother
  | wake request event hmem _ => simp [hwaiting] at hmem

/-- What a scheduled request leads to: a task for the replica, when there is one. -/
def task (numReplicas : ℕ) (answer : Request × Option ℤ) : Option (ℕ × Request) :=
  match answer.2 with
  | some replicaId =>
    if 0 ≤ replicaId ∧ replicaId < numReplicas then some (replicaId.toNat, answer.1) else none
  | none => none

theorem task_eq_some {numReplicas : ℕ} {answer : Request × Option ℤ} {r : ℕ}
    {request : Request} : task numReplicas answer = some (r, request) ↔
      answer = (request, some (r : ℤ)) ∧ r < numReplicas := by
  obtain ⟨request', runtimeId⟩ := answer
  cases runtimeId with
  | none => simp [task]
  | some replicaId =>
    simp only [task]
    split
    · next hrange =>
      simp only [Option.some.injEq, Prod.mk.injEq]
      constructor
      · rintro ⟨rfl, rfl⟩
        exact ⟨⟨rfl, by omega⟩, by omega⟩
      · rintro ⟨⟨rfl, rfl⟩, -⟩
        exact ⟨Int.toNat_natCast r, rfl⟩
    · next hrange =>
      simp only [reduceCtorEq, Prod.mk.injEq, Option.some.injEq, false_iff, not_and]
      rintro ⟨rfl, rfl⟩ hr
      exact hrange ⟨Int.natCast_nonneg r, by omega⟩

/-- Then every queued request was scheduled, and what was posted is what was chosen. -/
theorem Agreed.settled_posted {s : Selection σ} (h : Agreed numReplicas s)
    (halive : s.phase.Alive) (hstuck : ∀ s', ¬ Internal numReplicas schedule s s') :
    s.scheduled.map Prod.fst = s.entered ∧ s.entered.Perm s.requests ∧
      s.posted.Perm (s.scheduled.filterMap (task numReplicas)) := by
  obtain ⟨hstarting, hwaiting, hqueue, hidle⟩ := h.settled halive hstuck
  have hentered : s.scheduled.map Prod.fst = s.entered := by
    rw [h.fifo, hidle, hqueue]
    simp [RouterPhase.beingScheduled]
  refine ⟨hentered, ?_, ?_⟩
  · simp only [requests, hstarting, List.nil_append]
    exact h.begun
  · -- both lists are without repetition, so it is enough that they have the same elements
    have hposted : s.posted.Nodup := List.Nodup.of_map _ h.postedOnce
    have htasks : (s.scheduled.filterMap (task numReplicas)).Nodup := by
      apply List.Nodup.filterMap _ (List.Nodup.of_map _ h.scheduled_nodup)
      rintro a b ⟨r, request⟩ ha hb
      rw [(task_eq_some.mp ha).1, (task_eq_some.mp hb).1]
    apply (List.perm_ext_iff_of_nodup hposted htasks).mpr
    rintro ⟨r, request⟩
    rw [h.posted, List.mem_filterMap]
    constructor
    · rintro ⟨-, hr, hmem⟩
      exact ⟨_, hmem, task_eq_some.mpr ⟨rfl, hr⟩⟩
    · rintro ⟨answer, hmem, htask⟩
      obtain ⟨rfl, hr⟩ := task_eq_some.mp htask
      refine ⟨?_, hr, hmem⟩
      -- every call has ended, and one that raised was given no replica
      have hended : request ∈ s.entered := hentered ▸ List.mem_map_of_mem hmem
      rcases List.mem_append.mp (h.begun.subset hended) with hopen | hraised
      · simpa [hwaiting] using hopen
      · obtain ⟨e, he, rfl⟩ := List.mem_map.mp hraised
        have hnone := h.answer_unique (h.raised e he).2 hmem
        cases hnone

/-- Without new calls only finitely many steps are left. When none is possible and the
router has not stopped, every call has ended, every queued request was scheduled, in order,
and what was posted is what the scheduler chose. -/
theorem selection_settles (numReplicas : ℕ) (schedule : Request → Py σ (Option ℤ))
    (others : σ → σ → Prop) (scheduler : σ) {s : Selection σ}
    (hrun : Relation.ReflTransGen (Step numReplicas schedule others)
      { globalScheduler := scheduler } s) :
    (∀ s', Internal numReplicas schedule s s' → s'.remaining < s.remaining) ∧
      (s.phase.Alive → (∀ s', ¬ Internal numReplicas schedule s s') →
        s.starting = [] ∧ s.waiting = [] ∧ s.runtimeEvents.keys = [] ∧
          s.runtimeRequestQueue = [] ∧ s.unfinishedTasks = 0 ∧
          s.scheduled.map Prod.fst = s.entered ∧ s.entered.Perm s.requests ∧
          s.posted.Perm (s.scheduled.filterMap (task numReplicas))) := by
  have h := run_agreed (start_agreed scheduler) hrun
  refine ⟨fun s' hstep => hstep.remaining_lt, fun halive hstuck => ?_⟩
  obtain ⟨hstarting, hwaiting, hqueue, hidle⟩ := h.settled halive hstuck
  refine ⟨hstarting, hwaiting, ?_, hqueue, ?_, h.settled_posted halive hstuck⟩
  · apply List.eq_nil_iff_forall_not_mem.mpr
    intro key hkey
    obtain ⟨w, hw, -⟩ := h.keys key hkey
    rw [hwaiting] at hw
    exact List.not_mem_nil hw
  · rw [h.unfinished halive, hqueue, hidle]
    rfl

/-! ## An instance: two requests -/

/-- A request of one token. -/
def plainRequest (id : ℕ) : Request where
  id := id
  hashSessionId := "s"
  inputIds := [id]
  numPrefillTokens := 1
  outputLen := 1
  arrivedAt := id

/-- The first request goes to the first replica, and the second one to the second. -/
def byNumber (request : Request) : Py Unit (Option ℤ) := pure (some (request.id - 1))

/-- Both calls have begun, and the second request was queued first. -/
def bothEntered (scheduler : σ) : Selection σ :=
  (({ globalScheduler := scheduler, starting := [plainRequest 1, plainRequest 2] } :
    Selection σ).enter (plainRequest 2)).enter (plainRequest 1)

/-- The router has answered the head of the queue. -/
def headAnswered (schedule : Request → Py σ (Option ℤ)) (s : Selection σ) (request : Request)
    (rest : List Request) (replicaId : ℤ) : Selection σ :=
  (({ s with runtimeRequestQueue := rest, phase := .scheduling request } :
    Selection σ).runSchedule schedule request).scheduleRequestToReplica request (some replicaId)

/-- Both calls have read their answers, the first one before the second. -/
def twoEnded : Selection Unit :=
  ((headAnswered byNumber (headAnswered byNumber (bothEntered ()) (plainRequest 2)
    [plainRequest 1] 1) (plainRequest 1) [] 0).wake 2 (plainRequest 1) 1).wake 2 (plainRequest 2) 0

theorem bothEntered_reached (numReplicas : ℕ) (schedule : Request → Py σ (Option ℤ))
    (others : σ → σ → Prop) (scheduler : σ) :
    Relation.ReflTransGen (Step numReplicas schedule others) { globalScheduler := scheduler }
      (bothEntered scheduler) := by
  have hcall : Relation.ReflTransGen (Step numReplicas schedule others)
      { globalScheduler := scheduler }
      { globalScheduler := scheduler, starting := [plainRequest 1] } :=
    .single (.call _ (plainRequest 1) List.not_mem_nil)
  have hcalls := hcall.tail (.call _ (plainRequest 2) (by simp [requests, plainRequest]))
  have hsecond := hcalls.tail (.internal (.enter _ (plainRequest 2) (by simp)))
  exact hsecond.tail (.internal (.enter _ (plainRequest 1) (by simp [enter, plainRequest])))

theorem twoEnded_reached : Relation.ReflTransGen (Step 2 byNumber (fun _ _ => False))
    { globalScheduler := () } twoEnded := by
  have hentered := bothEntered_reached 2 byNumber (fun _ _ => False) ()
  have hhead := ((hentered.tail (.internal (.get (bothEntered ()) _ _ rfl rfl))).tail
    (.internal (.schedule _ _ rfl))).tail (.internal (.answer _ _ (some 1) rfl))
  have hrest := ((hhead.tail (.internal (.get _ (plainRequest 1) [] rfl rfl))).tail
    (.internal (.schedule _ _ rfl))).tail (.internal (.answer _ _ (some 0) rfl))
  have hwoken := hrest.tail (.internal (.wake _ (plainRequest 1) 1 (by decide) (by decide)))
  exact hwoken.tail (.internal (.wake _ (plainRequest 2) 0 (by decide) (by decide)))

theorem selection_agrees_twoEnded :
    (0, plainRequest 1) ∈ twoEnded.posted ∧ (1, plainRequest 2) ∈ twoEnded.posted ∧
      twoEnded.runtimeEvents.keys = [] := by
  obtain ⟨-, hposted, -, -, -, hkeys, -⟩ :=
    selection_agrees 2 byNumber (fun _ _ => False) () twoEnded_reached
  have hended : twoEnded.waiting = [] := by decide
  refine ⟨(hposted 0 (plainRequest 1)).mpr (by decide),
    (hposted 1 (plainRequest 2)).mpr (by decide), ?_⟩
  apply List.eq_nil_iff_forall_not_mem.mpr
  intro key hkey
  obtain ⟨w, hw, -⟩ := (hkeys key).mp hkey
  rw [hended] at hw
  exact List.not_mem_nil hw

theorem selection_settles_twoEnded :
    twoEnded.scheduled.map Prod.fst = [plainRequest 2, plainRequest 1] ∧
      twoEnded.posted.Perm [(1, plainRequest 2), (0, plainRequest 1)] := by
  obtain ⟨-, -, -, -, -, hscheduled, -, hposted⟩ :=
    (selection_settles 2 byNumber (fun _ _ => False) () twoEnded_reached).2
      (by decide) (not_internal (by decide) (by decide) (by decide) (by decide))
  exact ⟨hscheduled, hposted⟩

end DualMap.Router.Selection
