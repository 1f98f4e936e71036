import DualMap.Preble.RequestPath
import DualMap.Preble.SchedulerRuns

/-!
# The Path of a Routed Request

`schedule` marks the whole path of a request with its replica, and then lets the old entries of
the window leave. The last entry of a node takes the node's allocation with it, also where the
node has been marked just before. `schedule_pathAllocated_iff`: the path keeps the replica
exactly when every node of it that loses entries keeps others, where the request itself counts
for its important ancestor.
-/

namespace DualMap.Preble

open LPRadixCache (SameShape placeOn)
open SlidingWindowHistogram (Forgotten expired remaining)

variable {n : ℕ} {rt : Runtime n} {σ σ₁ : ℕ → List ℕ} {reserved : List (List ℕ × Fin n)}

namespace PrebleGlobalSchedulerUtils

variable {s s' : PrebleGlobalSchedulerUtils n}

/-- The replica has all nodes on the way from the root to the leaf. -/
def PathAllocated (s : PrebleGlobalSchedulerUtils n) (leaf : ℕ) (gpu : Fin n) : Prop :=
  ∀ m ∈ s.cache.ancestors leaf, gpu ∈ s.holders m

/-- No node loses a replica. -/
def StealsNoNode (s s' : PrebleGlobalSchedulerUtils n) : Prop :=
  ∀ m, s.holders m ⊆ s'.holders m

/-- The times and places of the entries when the request has come in at the given time. -/
def placedEntries (s : PrebleGlobalSchedulerUtils n) (inputIds : List ℕ) (now : ℚ) :
    List (ℚ × Option ℕ) :=
  s.histogram.timestamps.map
      (fun entry => (entry.timestamp, s.cache.pathPlace inputIds entry.node)) ++
    [(now, some (s.cache.nearestPlace inputIds))]

/-- Every place on the path of the request that an old entry leaves has an entry that stays. -/
def KeepsPath (s : PrebleGlobalSchedulerUtils n) (inputIds : List ℕ) (now : ℚ) : Prop :=
  let old := fun entry : ℚ × Option ℕ => decide (entry.1 < now - s.histogram.windowDuration)
  ∀ entry ∈ (s.placedEntries inputIds now).takeWhile old, entry.2.isSome →
    entry.2 ∈ ((s.placedEntries inputIds now).dropWhile old).map Prod.snd

instance (s : PrebleGlobalSchedulerUtils n) (inputIds : List ℕ) (now : ℚ) :
    Decidable (s.KeepsPath inputIds now) :=
  inferInstanceAs (Decidable (∀ _ ∈ _, _))

/-- Moving nodes without taking one from a replica gives nodes that have left the window to no
replica. -/
theorem MovesTo.pathAllocated_iff {light gpu : Fin n} (hmoves : MovesTo light s s')
    (hnone : StealsNoNode s s') {leaf : ℕ}
    (houtside : ∀ m ∈ s.cache.ancestors leaf, gpu ∉ s.holders m →
      m ∉ s.histogram.timestamps.map WindowEntry.node) :
    s'.PathAllocated leaf gpu ↔ s.PathAllocated leaf gpu := by
  rw [PathAllocated, PathAllocated, hmoves.shape.ancestors]
  refine forall₂_congr fun m hm => ⟨fun hgpu => ?_, fun hgpu => hnone m hgpu⟩
  by_contra hnot
  rcases hmoves.outside with ⟨x, other, -, hother, hlost⟩ | hsame
  · exact hlost (hnone x hother)
  · exact hnot (hsame m (houtside m hm hnot) ▸ hgpu)

end PrebleGlobalSchedulerUtils

namespace PrebleGlobalScheduler

open PrebleGlobalSchedulerUtils

variable {s s₁ s₂ : PrebleGlobalSchedulerUtils n}

/-- The path has the replica exactly when none of its nodes is forgotten. -/
theorem ReservedOn.pathAllocated_iff {leaf node : ℕ} {gpu : Fin n}
    (h : ReservedOn rt s leaf node gpu s₁) :
    s₁.PathAllocated leaf gpu ↔ ∀ m ∈ s.cache.ancestors leaf,
      ¬ Forgotten (rt.time s.cache.ticks - s.histogram.windowDuration)
        (s.histogram.timestamps ++ [⟨rt.time s.cache.ticks, node, leaf⟩]) m := by
  rw [PathAllocated, h.shape.ancestors]
  refine forall₂_congr fun m hm => ?_
  rw [h.holders m, if_pos hm]
  split
  · next hforgotten => exact iff_of_false (Finset.notMem_empty gpu) (not_not.mpr hforgotten)
  · next hkept =>
    exact iff_of_true (Finset.mem_union_right _ (Finset.mem_singleton_self gpu)) hkept

/-- A node that is forgotten is not in the window any more. -/
theorem ReservedOn.notMem_timestamps {leaf node : ℕ} {gpu : Fin n}
    (h : ReservedOn rt s leaf node gpu s₁) {m : ℕ} (hm : m ∈ s₁.cache.ancestors leaf)
    (hgpu : gpu ∉ s₁.holders m) : m ∉ s₁.histogram.timestamps.map WindowEntry.node := by
  rw [h.shape.ancestors] at hm
  rw [h.holders m, if_pos hm] at hgpu
  rw [h.timestamps]
  split at hgpu
  · next hforgotten => exact hforgotten.2
  · exact absurd (Finset.mem_union_right _ (Finset.mem_singleton_self gpu)) hgpu

/-- None of the nodes on the path is forgotten exactly when every place of the path that an old
entry leaves has an entry that stays. -/
theorem ScheduledVia.keepsPath_iff {request : Request} {leaf : ℕ} {splits : OrderedDict ℕ ℕ}
    {node : ℕ} {gpu : Fin n} (hs : Sound s σ reserved ∅)
    (h : ScheduledVia rt s σ reserved request leaf splits s₁ σ₁ node gpu s₂) :
    (∀ m ∈ s₁.cache.ancestors leaf,
      ¬ Forgotten (rt.time s₁.cache.ticks - s₁.histogram.windowDuration)
        (s₁.histogram.timestamps ++ [⟨rt.time s₁.cache.ticks, node, leaf⟩]) m) ↔
    s.KeepsPath request.inputIds (rt.time s₁.cache.ticks) := by
  let now := rt.time s₁.cache.ticks
  let place := fun entry : WindowEntry => (entry.timestamp, s₁.cache.placeOn leaf entry.node)
  have hleaf := h.inserted.leaf_spell.1
  have hwf := h.inserted.wellFormed hs.wellFormed
  -- the entries have the places that are known before
  have hplaced : s.placedEntries request.inputIds now =
      (s₁.histogram.timestamps ++ [(⟨now, node, leaf⟩ : WindowEntry)]).map place := by
    have hpath := ((getNearestAncestor_iff hwf hleaf).mp h.nearest).1
    rw [placedEntries, List.map_append, h.inserted.timestamps, List.map_map]
    refine congrArg₂ _ (List.map_congr_left fun entry hentry => ?_) ?_
    · rw [Function.comp_apply, ← h.inserted.placeOn_moved hs hentry]
      exact congrArg₂ _ (moved_timestamp s₁ splits entry).symm rfl
    · rw [List.map_singleton, ← h.inserted.contextLength_nearest hs h.nearest]
      show [(now, some (s₁.cache.nodes node).contextLength)] =
        [(now, s₁.cache.placeOn leaf node)]
      rw [placeOn, if_pos hpath]
  rw [KeepsPath, hplaced, ← h.inserted.windowDuration]
  simp only [List.takeWhile_map, List.dropWhile_map, List.map_map, List.forall_mem_map]
  constructor
  · intro hkept entry hentry hsome
    have hpath : entry.node ∈ s₁.cache.ancestors leaf := by
      by_contra hnot
      have hnone : s₁.cache.placeOn leaf entry.node = none := if_neg hnot
      rw [show (place entry).2 = none from hnone] at hsome
      cases hsome
    have hstays := not_and_not_right.mp (hkept entry.node hpath) (List.mem_map_of_mem hentry)
    obtain ⟨other, hother, hnode⟩ := List.mem_map.mp hstays
    refine List.mem_map.mpr ⟨other, hother, ?_⟩
    show s₁.cache.placeOn leaf other.node = s₁.cache.placeOn leaf entry.node
    rw [hnode]
  · rintro hkeeps m hm ⟨hold, hgone⟩
    obtain ⟨entry, hentry, rfl⟩ := List.mem_map.mp hold
    have hsome : (place entry).2.isSome := by
      show (s₁.cache.placeOn leaf entry.node).isSome
      rw [placeOn, if_pos hm]
      rfl
    obtain ⟨other, hother, heq⟩ := List.mem_map.mp (hkeeps entry hentry hsome)
    exact hgone (List.mem_map.mpr ⟨other, hother, hwf.placeOn_inj hleaf hm heq⟩)

/-! ## Main results -/

/-- In every state that runs reach, a call that returns a replica and steals no node leaves the
path of the request with the replica exactly when the old entries that leave keep its places. -/
theorem schedule_pathAllocated_iff {windowDuration maxDramTokens prefillTpot : ℚ}
    {unfinished : List (List ℕ × Fin n)} {s' : PrebleGlobalSchedulerUtils n}
    {request : Request} {gpu : Fin n}
    (h : SchedulerRun rt windowDuration maxDramTokens prefillTpot (fun _ _ => True) s unfinished)
    (hrun : schedule rt (some request) s = .ok gpu.val s') :
    ∃ leaf node s₁ s₂, insertRequest rt request.inputIds s = .ok leaf s₁ ∧
      scheduleUntilStealing rt request s = .ok (leaf, node, gpu) s₂ ∧
      (StealsNoNode s₂ s' → (PathAllocated s' leaf gpu ↔
        KeepsPath s request.inputIds (rt.time s₁.cache.ticks))) := by
  obtain ⟨⟨σ, reserved, hs, -⟩, -⟩ := h.invariant (I := fun _ => True) gpu.pos trivial
    (fun _ _ _ _ _ => trivial) (fun _ _ _ _ _ _ _ _ _ _ _ _ _ _ _ => trivial)
  obtain ⟨leaf, splits, s₁, σ₁, node, s₂, hvia, -, hmoves⟩ := scheduledVia_of_ok rt hs hrun
  refine ⟨leaf, node, s₁, s₂, hvia.insert, hvia.run, fun hnone => ?_⟩
  rw [← hvia.keepsPath_iff hs, ← hvia.reservedOn.pathAllocated_iff]
  rcases hmoves with rfl | ⟨light, hmoves⟩
  · exact Iff.rfl
  · exact hmoves.pathAllocated_iff hnone
      (fun m hm hgpu => hvia.reservedOn.notMem_timestamps hm hgpu)

/-! ## A path that is forgotten -/

/-- One replica, and a clock that shows a hundred seconds more at each reading. -/
def slowReplica : Runtime 1 := .ascending 1 fun reading => 100 * reading

/-- The scheduler after a first request. -/
def afterFirst : PrebleGlobalSchedulerUtils 1 :=
  Py.finalState (schedule slowReplica (some ⟨0, "s", [1, 2, 3], 3, 8, 0⟩)
    (init slowReplica 180 1000 (1 / 10)))

/-- It continues the first one with more tokens than that had. -/
def secondRequest : Request := ⟨0, "s", [1, 2, 3, 4, 5, 6, 7, 8], 8, 8, 0⟩

theorem afterFirst_run : SchedulerRun slowReplica 180 1000 (1 / 10) (fun _ _ => True) afterFirst
    [([1, 2, 3], Fin.last 0)] := by
  have hrun : schedule slowReplica (some ⟨0, "s", [1, 2, 3], 3, 8, 0⟩)
      (init slowReplica 180 1000 (1 / 10)) = .ok (Fin.last 0).val afterFirst :=
    Py.eq_ok_of_returned (by decide +kernel)
  exact SchedulerRun.schedule .init trivial hrun

theorem schedule_second : schedule slowReplica (some secondRequest) afterFirst =
    .ok (Fin.last 0).val (Py.finalState (schedule slowReplica (some secondRequest) afterFirst)) :=
  Py.eq_ok_of_returned (by decide +kernel)

theorem schedule_pathAllocated_iff_second :
    ∃ leaf node s₁ s₂, insertRequest slowReplica secondRequest.inputIds afterFirst = .ok leaf s₁ ∧
      scheduleUntilStealing slowReplica secondRequest afterFirst =
        .ok (leaf, node, Fin.last 0) s₂ ∧
      (StealsNoNode s₂ (Py.finalState (schedule slowReplica (some secondRequest) afterFirst)) →
        (PathAllocated (Py.finalState (schedule slowReplica (some secondRequest) afterFirst)) leaf
          (Fin.last 0) ↔
        KeepsPath afterFirst secondRequest.inputIds (slowReplica.time s₁.cache.ticks))) :=
  schedule_pathAllocated_iff afterFirst_run schedule_second

/-- The second request comes when the first one has left the window: its own entry is at the
lower node, and the node of the first request, on its path, is left to no replica. -/
theorem not_pathAllocated : ¬ ∀ (s : PrebleGlobalSchedulerUtils 1)
    (unfinished : List (List ℕ × Fin 1)) (request : Request) (gpu : Fin 1)
    (s' : PrebleGlobalSchedulerUtils 1) (leaf node : ℕ) (s₂ : PrebleGlobalSchedulerUtils 1),
    SchedulerRun slowReplica 180 1000 (1 / 10) (fun _ _ => True) s unfinished →
      schedule slowReplica (some request) s = .ok gpu.val s' →
      scheduleUntilStealing slowReplica request s = .ok (leaf, node, gpu) s₂ →
      StealsNoNode s₂ s' → PathAllocated s' leaf gpu := by
  intro h
  have huntil : scheduleUntilStealing slowReplica secondRequest afterFirst =
      .ok (2, 2, Fin.last 0)
        (Py.finalState (scheduleUntilStealing slowReplica secondRequest afterFirst)) :=
    Py.eq_ok_of_returned (by decide +kernel)
  have hsame : (Py.finalState
        (schedule slowReplica (some secondRequest) afterFirst)).histogram.gpuAllocations =
      (Py.finalState (scheduleUntilStealing slowReplica secondRequest
        afterFirst)).histogram.gpuAllocations := by
    -- a dictionary is the list of its entries
    rw [OrderedDict.mk.injEq]
    decide +kernel
  have hfirst := h afterFirst _ secondRequest _ _ 2 2 _ afterFirst_run schedule_second huntil
    (fun m => (holders_congr hsame m).ge) 1 (by decide +kernel)
  revert hfirst
  decide +kernel

end PrebleGlobalScheduler

end DualMap.Preble
