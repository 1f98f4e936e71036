import DualMap.Preble.SchedulingSafety

/-!
# A Position Is Taken for a Replica

`calculate_min_load_cost` returns the position of the first cheapest replica in the list of
those it was given, and `schedule` takes this number for the id of a replica. For a list of
all replicas the two are the same. For the holders of a prefix they need not be: with the
holders 1 and 2 the request can be sent to replica 0, which has nothing of the prefix
(`schedule_leaves_holders`). `replica_choice_iff` says when all is well.
-/

namespace DualMap.Preble

variable {n : ℕ} {rt : Runtime n} {σ : ℕ → List ℕ} {reserved : List (List ℕ × Fin n)}
  {fresh : Finset ℕ}

namespace PrebleGlobalSchedulerUtils

variable {s : PrebleGlobalSchedulerUtils n}

/-! ## The first cheapest replica -/

/-- The first cheapest of the listed replicas stands at the position. -/
def FirstCheapestAt (cost : Fin n → ℚ) (gpus : List (Fin n)) (position : ℕ) : Prop :=
  ∃ h : position < gpus.length, (∀ gpu ∈ gpus, cost gpus[position] ≤ cost gpu) ∧
    ∀ i, (hi : i < position) → cost gpus[position] < cost gpus[i]

theorem FirstCheapestAt.unique {cost : Fin n → ℚ} {gpus : List (Fin n)} {p q : ℕ}
    (hp : FirstCheapestAt cost gpus p) (hq : FirstCheapestAt cost gpus q) : p = q := by
  obtain ⟨hlt, hle, hfirst⟩ := hp
  obtain ⟨hlt', hle', hfirst'⟩ := hq
  rcases Nat.lt_trichotomy p q with hpq | heq | hqp
  · exact absurd (hle _ (List.getElem_mem hlt')) (not_le.mpr (hfirst' p hpq))
  · exact heq
  · exact absurd (hle' _ (List.getElem_mem hlt)) (not_le.mpr (hfirst q hqp))

theorem argmin_map (cost : Fin n → ℚ) {gpus : List (Fin n)} (hne : gpus ≠ []) :
    ∃ position, argmin (gpus.map cost) = some position ∧ FirstCheapestAt cost gpus position := by
  obtain ⟨position, hargmin, hlt, hle, hfirst⟩ :=
    argmin_spec (fun hnil => hne (List.map_eq_nil_iff.mp hnil) : gpus.map cost ≠ [])
  rw [List.length_map] at hlt
  refine ⟨position, hargmin, hlt, fun gpu hgpu => ?_, fun i hi => ?_⟩
  · have hle := hle (cost gpu) (List.mem_map_of_mem hgpu)
    rwa [List.getElem_map] at hle
  · have hfirst := hfirst i hi
    rwa [List.getElem_map, List.getElem_map] at hfirst

/-- What `calculate_min_load_cost` returns. -/
theorem Sound.calculateMinLoadCost_spec (rt : Runtime n) (hs : Sound s σ reserved fresh)
    (leaf : ℕ) {gpus : List (Fin n)} (hne : gpus ≠ []) :
    ∃ position, calculateMinLoadCost rt leaf gpus s = .ok position s ∧
      FirstCheapestAt (s.loadCost rt leaf) gpus position := by
  obtain ⟨position, hargmin, hfirst⟩ := argmin_map (s.loadCost rt leaf) hne
  rw [hs.calculateMinLoadCost_eq, hargmin]
  exact ⟨position, rfl, hfirst⟩

/-- Of some replicas the cheapest is returned exactly when the first cheapest of them stands
at a position that is the id of a cheapest one. -/
theorem Sound.calculateMinLoadCost_iff (rt : Runtime n) (hs : Sound s σ reserved fresh)
    (leaf : ℕ) {gpus : Finset (Fin n)} (hne : gpus.Nonempty) :
    ∃ position, calculateMinLoadCost rt leaf (rt.iterGpus gpus) s = .ok position s ∧
      ((∃ gpu ∈ gpus, gpu.val = position ∧
          ∀ other ∈ gpus, s.loadCost rt leaf gpu ≤ s.loadCost rt leaf other) ↔
        ∃ gpu ∈ gpus, (∀ other ∈ gpus, s.loadCost rt leaf gpu ≤ s.loadCost rt leaf other) ∧
          FirstCheapestAt (s.loadCost rt leaf) (rt.iterGpus gpus) gpu.val) := by
  obtain ⟨gpu, hgpu⟩ := hne
  obtain ⟨position, hrun, hfirst⟩ := hs.calculateMinLoadCost_spec rt leaf
    (List.ne_nil_of_mem (((rt.iterGpus_perm gpus).2 gpu).mpr hgpu))
  refine ⟨position, hrun, ?_, ?_⟩
  · rintro ⟨gpu, hgpu, rfl, hle⟩
    exact ⟨gpu, hgpu, hle, hfirst⟩
  · rintro ⟨gpu, hgpu, hle, hfirst'⟩
    exact ⟨gpu, hgpu, hfirst'.unique hfirst, hle⟩

end PrebleGlobalSchedulerUtils

namespace PrebleGlobalScheduler

open PrebleGlobalSchedulerUtils

variable {s : PrebleGlobalSchedulerUtils n}

/-- For a leaf that shares most of its path, a holder of the shared prefix is chosen if there
is only one, or if the first cheapest holder stands at a position that is the id of a
holder. -/
theorem chooseReplica_shared (rt : Runtime n) (hs : Sound s σ reserved fresh) (hn : 0 < n)
    {leaf : ℕ}
    (hshared : ((s.cache.nodes leaf).numTokens : ℤ) < (s.cache.nodes leaf).contextSoFar) :
    ∃ gpu, chooseReplica rt leaf s = .ok gpu s ∧
      (gpu ∈ s.getParentGpuAllocation leaf ↔ (s.getParentGpuAllocation leaf).card = 1 ∨
        ∃ holder ∈ s.getParentGpuAllocation leaf, FirstCheapestAt (s.loadCost rt leaf)
          (rt.iterGpus (s.getParentGpuAllocation leaf)) holder.val) := by
  obtain ⟨holder, hholder⟩ := s.getParentGpuAllocation_nonempty leaf hn
  obtain ⟨hnodup, hmem⟩ := rt.iterGpus_perm (s.getParentGpuAllocation leaf)
  have hne : rt.iterGpus (s.getParentGpuAllocation leaf) ≠ [] :=
    List.ne_nil_of_mem ((hmem holder).mpr hholder)
  rw [chooseReplica, Py.bind_ok (Py.get_apply s), if_pos hshared]
  -- with several holders the code returns the position of the least cost in the set's order
  by_cases hseveral : 1 < (s.getParentGpuAllocation leaf).card
  · obtain ⟨position, hrun, hfirst⟩ := hs.calculateMinLoadCost_spec rt leaf hne
    have hlt : position < n :=
      lt_of_lt_of_le hfirst.choose (by simpa using hnodup.length_le_card)
    rw [if_pos hseveral, Py.bind_ok hrun, replicaAt_eq hlt]
    refine ⟨⟨position, hlt⟩, rfl, fun hin => Or.inr ⟨_, hin, hfirst⟩, ?_⟩
    rintro (hone | ⟨other, hother, hfirst'⟩)
    · exact absurd hone hseveral.ne'
    · obtain rfl : other = ⟨position, hlt⟩ := Fin.ext (hfirst'.unique hfirst)
      exact hother
  -- with one holder it returns that one, whatever its cost
  · have hone : (s.getParentGpuAllocation leaf).card = 1 :=
      Nat.le_antisymm (Nat.le_of_not_lt hseveral) (Finset.card_pos.mpr ⟨holder, hholder⟩)
    obtain ⟨first, rest, hcons⟩ := List.exists_cons_of_ne_nil hne
    have hfirst : first ∈ s.getParentGpuAllocation leaf :=
      (hmem first).mp (hcons ▸ List.mem_cons_self)
    rw [if_neg hseveral, hcons]
    exact ⟨first, rfl, fun _ => Or.inl hone, fun _ => hfirst⟩

/-! ## Main results -/

/-- In every reachable state: a request whose leaf owns fewer tokens than it shares goes to a
holder of the shared prefix exactly when there is one holder only, or the first cheapest
holder stands at a position that is the id of a holder; and the choice among some replicas
returns a cheapest one exactly when the first cheapest stands at a position that is the id of
a cheapest one. -/
theorem replica_choice_iff {windowDuration maxDramTokens prefillTpot : ℚ}
    {unfinished : List (List ℕ × Fin n)} (hn : 0 < n)
    (h : Reachable rt windowDuration maxDramTokens prefillTpot s unfinished) :
    (∀ (request : Request) (leaf : ℕ) (s₁ : PrebleGlobalSchedulerUtils n),
      insertRequest rt request.inputIds s = .ok leaf s₁ →
      ((s₁.cache.nodes leaf).numTokens : ℤ) < (s₁.cache.nodes leaf).contextSoFar →
      ∃ (gpu : Fin n) (s' : PrebleGlobalSchedulerUtils n),
        schedule rt (some request) s = .ok gpu.val s' ∧
        (gpu ∈ s₁.getParentGpuAllocation leaf ↔ (s₁.getParentGpuAllocation leaf).card = 1 ∨
          ∃ holder ∈ s₁.getParentGpuAllocation leaf, FirstCheapestAt (s₁.loadCost rt leaf)
            (rt.iterGpus (s₁.getParentGpuAllocation leaf)) holder.val)) ∧
    ∀ (t : PrebleGlobalSchedulerUtils n),
      (t = s ∨ ∃ inputIds leaf, insertRequest rt inputIds s = .ok leaf t) →
      ∀ (leaf : ℕ) (gpus : Finset (Fin n)), gpus.Nonempty →
      ∃ position, calculateMinLoadCost rt leaf (rt.iterGpus gpus) t = .ok position t ∧
        ((∃ gpu ∈ gpus, gpu.val = position ∧
            ∀ other ∈ gpus, t.loadCost rt leaf gpu ≤ t.loadCost rt leaf other) ↔
          ∃ gpu ∈ gpus, (∀ other ∈ gpus, t.loadCost rt leaf gpu ≤ t.loadCost rt leaf other) ∧
            FirstCheapestAt (t.loadCost rt leaf) (rt.iterGpus gpus) gpu.val) := by
  obtain ⟨σ, reserved, hs, -⟩ := h.sound hn
  constructor
  · intro request leaf s₁ hinsert hshared
    obtain ⟨leaf', s₁', σ', hinsert', hs₁, hleaf, hspell⟩ :=
      insertRequest_spec rt hs request.inputIds
    obtain ⟨rfl, rfl⟩ := EStateM.Result.ok.inj (hinsert.symm.trans hinsert')
    -- the root has nothing before it
    have hne : σ' leaf ≠ [] := by
      intro hnil
      have hcontext := hs₁.wellFormed.context leaf hleaf
      rw [hnil, List.length_nil] at hcontext
      rw [TreeNode.contextSoFar, hcontext] at hshared
      omega
    obtain ⟨gpu, hchoose, hiff⟩ := chooseReplica_shared rt hs₁ hn hshared
    obtain ⟨s', hrun, -⟩ := scheduleRequest_of_choice rt hinsert hs₁ hleaf hne hchoose
    exact ⟨gpu, s', by rw [schedule, Py.bind_ok hrun]; rfl, hiff⟩
  · rintro t (rfl | ⟨inputIds, leaf', hinsert⟩) leaf gpus hgpus
    · exact hs.calculateMinLoadCost_iff rt leaf hgpus
    · obtain ⟨leaf'', t', σ', hinsert', ht, -⟩ := insertRequest_spec rt hs inputIds
      obtain ⟨-, rfl⟩ := EStateM.Result.ok.inj (hinsert.symm.trans hinsert')
      exact ht.calculateMinLoadCost_iff rt leaf hgpus

/-! ## Holders that are passed over -/

/-- Three replicas, whose sets are iterated in ascending order. -/
def threeReplicas : Runtime 3 := .ascending 3 (fun reading => reading)

/-- A request with the prompt. -/
def prompt (inputIds : List ℕ) : Request := ⟨0, "s", inputIds, inputIds.length, 8, 0⟩

/-- The scheduler after requests with the prompts. -/
def afterPrompts (prompts : List (List ℕ)) : PrebleGlobalSchedulerUtils 3 :=
  prompts.foldl
    (fun s inputIds => Py.finalState (schedule threeReplicas (some (prompt inputIds)) s))
    (init threeReplicas 180 1000 (1 / 10))

/-- Two prompts go to the replicas 0 and 1, and a third one, which shares half of the second,
goes to replica 2. -/
theorem afterPrompts_reachable : Reachable threeReplicas 180 1000 (1 / 10)
    (afterPrompts [[5, 6, 7, 8], [1, 2, 3, 4], [1, 2, 9, 9]])
    [([1, 2, 9, 9], 2), ([1, 2, 3, 4], 1), ([5, 6, 7, 8], 0)] := by
  have hfirst : Reachable threeReplicas 180 1000 (1 / 10) (afterPrompts [[5, 6, 7, 8]])
      [([5, 6, 7, 8], 0)] :=
    Reachable.init.schedule (by decide) (Py.eq_ok_of_returned (by decide +kernel))
  have hsecond : Reachable threeReplicas 180 1000 (1 / 10)
      (afterPrompts [[5, 6, 7, 8], [1, 2, 3, 4]]) [([1, 2, 3, 4], 1), ([5, 6, 7, 8], 0)] :=
    hfirst.schedule (by decide) (Py.eq_ok_of_returned (by decide +kernel))
  exact hsecond.schedule (by decide) (Py.eq_ok_of_returned (by decide +kernel))

/-- A fourth request has the prefix `[1, 2]`, which the replicas 1 and 2 hold, and one more
token. -/
theorem replica_choice_iff_fourth :
    ∃ (s₁ s' : PrebleGlobalSchedulerUtils 3) (gpu : Fin 3),
      insertRequest threeReplicas [1, 2, 7]
        (afterPrompts [[5, 6, 7, 8], [1, 2, 3, 4], [1, 2, 9, 9]]) = .ok 5 s₁ ∧
      schedule threeReplicas (some (prompt [1, 2, 7]))
        (afterPrompts [[5, 6, 7, 8], [1, 2, 3, 4], [1, 2, 9, 9]]) = .ok gpu.val s' ∧
      (gpu ∈ s₁.getParentGpuAllocation 5 ↔ (s₁.getParentGpuAllocation 5).card = 1 ∨
        ∃ holder ∈ s₁.getParentGpuAllocation 5, FirstCheapestAt (s₁.loadCost threeReplicas 5)
          (threeReplicas.iterGpus (s₁.getParentGpuAllocation 5)) holder.val) := by
  have hinsert : insertRequest threeReplicas [1, 2, 7]
      (afterPrompts [[5, 6, 7, 8], [1, 2, 3, 4], [1, 2, 9, 9]]) = .ok 5 _ :=
    Py.eq_ok_of_returned (by decide +kernel)
  obtain ⟨gpu, s', hrun, hiff⟩ := (replica_choice_iff (by decide) afterPrompts_reachable).1
    (prompt [1, 2, 7]) 5 _ hinsert (by decide +kernel)
  exact ⟨_, s', gpu, hinsert, hrun, hiff⟩

/-- The fourth request goes to replica 0, which holds nothing of the prefix: the first
cheapest holder stands at position 0. -/
theorem schedule_leaves_holders :
    ∃ (s s₁ s' : PrebleGlobalSchedulerUtils 3) (unfinished : List (List ℕ × Fin 3))
      (leaf : ℕ) (gpu : Fin 3),
      Reachable threeReplicas 180 1000 (1 / 10) s unfinished ∧
      insertRequest threeReplicas [1, 2, 7] s = .ok leaf s₁ ∧
      ((s₁.cache.nodes leaf).numTokens : ℤ) < (s₁.cache.nodes leaf).contextSoFar ∧
      schedule threeReplicas (some (prompt [1, 2, 7])) s = .ok gpu.val s' ∧
      gpu ∉ s₁.getParentGpuAllocation leaf := by
  refine ⟨_, _, _, _, 5, 0, afterPrompts_reachable, Py.eq_ok_of_returned (by decide +kernel), ?_,
    Py.eq_ok_of_returned (by decide +kernel), ?_⟩
  · decide +kernel
  · decide +kernel

end PrebleGlobalScheduler

end DualMap.Preble
