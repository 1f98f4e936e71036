import DualMap.Scheduler.RebalanceSafety

/-!
# SLO-Aware Placement

Four balance types queue a request at the candidate with the longer cached prefix, unless
that one is overloaded; then the predicted time to the first token decides. The predicted
time is a rounded product, and the rounding keeps candidates on different sides of the
overload threshold apart.

Main results:
- `placementOf_sloPlacement`: what the choice guarantees, whatever was measured;
- `placement_sloAware`: so it does in every run of `add_request_to_best_global_queue`.
-/

namespace DualMap.Scheduler.DoubleHashGlobalSchedulerUtils

open Cache

variable {n : ℕ} {κ ν : Type} (utils : DoubleHashGlobalSchedulerUtils n)

/-! ## What is guaranteed -/

/-- The balance types that look at the threshold. -/
def SloAware : BalanceType → Prop
  | .dualmap | .dualmapNoRebalance | .ttftSlo | .ttftAvg => True
  | _ => False

/-- `r` and `other` are the two candidates of the request. -/
def AreCandidates (request : Request) (r other : Fin n) : Prop :=
  utils.candidates request = (r, other) ∨ utils.candidates request = (other, r)

/-- The computed hit length of a candidate: what is not recomputed of its prompt. -/
def hitLen (request : Request) (metrics : CandidateMetrics) : ℤ :=
  request.inputIds.length - metrics.numReqActualPrefillTokens

/-- A candidate stays within the threshold, the tokens of the request included. -/
def Within (metrics : CandidateMetrics) : Prop :=
  metrics.numVirtualPendingTokens ≤ utils.dhFirstBalanceTtftThredhold

instance (metrics : CandidateMetrics) : Decidable (utils.Within metrics) :=
  inferInstanceAs (Decidable (_ ≤ _))

/-- The metrics of a candidate are what the code reads in one state, with its rounding. -/
structure MeasuredIn [LookupCache κ] (w : World n κ) (request : Request) (r : Fin n)
    (metrics : CandidateMetrics) : Prop where
  recompute : metrics.numReqActualPrefillTokens = w.recomputeLen r request
  hit : metrics.prefixCacheHitLen = hitLen request metrics
  pending : metrics.numVirtualPendingTokens =
    w.globalRequestQueue.getGlobalActualWaitingTokensCount r +
      w.getNumActualPendingTokensReplica r + w.recomputeLen r request
  ttft : metrics.ttft = utils.round 4 (utils.prefillTime metrics.numVirtualPendingTokens)

/-- What the choice guarantees of a placement. -/
structure SloPlacement (request : Request) (placement : Placement n) : Prop where
  distinct : placement.primaryReplicaId ≠ placement.secondReplicaId
  candidates : utils.AreCandidates request placement.primaryReplicaId placement.secondReplicaId
  longerHit : ∀ r other, utils.AreCandidates request r other →
    hitLen request (placement.metrics other) < hitLen request (placement.metrics r) →
    utils.Within (placement.metrics r) → placement.primaryReplicaId = r
  onlyOneWithin : ∀ r other, utils.AreCandidates request r other →
    utils.Within (placement.metrics r) → ¬ utils.Within (placement.metrics other) →
    placement.primaryReplicaId = r

/-! ## The candidates -/

theorem nextReplica_ne (hn : 2 ≤ n) (r : Fin n) : nextReplica r ≠ r := by
  intro heq
  have hval : (r.val + 1) % n = r.val := congrArg Fin.val heq
  rcases Nat.lt_or_ge (r.val + 1) n with hlt | hge
  · rw [Nat.mod_eq_of_lt hlt] at hval
    omega
  · -- the next of the last replica is the first one
    have hlast : r.val + 1 = n := by omega
    rw [hlast, Nat.mod_self] at hval
    omega

theorem candidates_ne (hn : 2 ≤ n) (request : Request) :
    (utils.candidates request).1 ≠ (utils.candidates request).2 := by
  simp only [candidates]
  split
  · exact (nextReplica_ne hn _).symm
  · next h => exact h

/-! ## The choice -/

section Choice

variable {M : Type} [LinearOrder M]

/-- The choice is the two replicas in one of their two orders. -/
theorem selectReplicas_pair (r other : Fin n) (metric : Fin n → M) (blocks : Fin n → ℕ)
    (primaryIsMax : Bool) :
    utils.selectReplicasBasedOnMetrics r other metric blocks primaryIsMax = (r, other) ∨
      utils.selectReplicasBasedOnMetrics r other metric blocks primaryIsMax = (other, r) := by
  unfold selectReplicasBasedOnMetrics minMax
  split_ifs <;> simp

/-- The replica with the strictly smaller value is the primary one when the least is asked
for, wherever it stands among the two. -/
theorem selectReplicas_min {r other : Fin n} (metric : Fin n → M) (blocks : Fin n → ℕ)
    (hlt : metric r < metric other) :
    utils.selectReplicasBasedOnMetrics r other metric blocks false = (r, other) ∧
      utils.selectReplicasBasedOnMetrics other r metric blocks false = (r, other) := by
  simp [selectReplicasBasedOnMetrics, minMax, hlt, hlt.ne, hlt.ne', hlt.not_gt]

theorem selectReplicas_max {r other : Fin n} (metric : Fin n → M) (blocks : Fin n → ℕ)
    (hlt : metric other < metric r) :
    utils.selectReplicasBasedOnMetrics r other metric blocks true = (r, other) ∧
      utils.selectReplicasBasedOnMetrics other r metric blocks true = (r, other) := by
  simp [selectReplicasBasedOnMetrics, minMax, hlt, hlt.ne, hlt.ne', hlt.not_gt]

/-- The choice of the SLO-aware balance types. -/
theorem choosePrimary_eq (htype : SloAware utils.balanceType) (r other : Fin n)
    (metrics : Fin n → CandidateMetrics) :
    utils.choosePrimary r other metrics =
      if utils.Within (metrics (utils.selectReplicasBasedOnMetrics r other
          (fun r => (metrics r).prefixCacheHitLen)
          (fun r => (metrics r).runningReqBlocksCnt) true).1) then
        utils.selectReplicasBasedOnMetrics r other (fun r => (metrics r).prefixCacheHitLen)
          (fun r => (metrics r).runningReqBlocksCnt) true
      else
        utils.selectReplicasBasedOnMetrics r other (fun r => (metrics r).ttft)
          (fun r => (metrics r).runningReqBlocksCnt) false := by
  have hflip : ∀ (a b : Fin n × Fin n) (m : CandidateMetrics),
      (if m.numVirtualPendingTokens > utils.dhFirstBalanceTtftThredhold then a else b) =
        if utils.Within m then b else a := by
    intro a b m
    by_cases hwithin : utils.Within m
    · rw [if_pos hwithin, if_neg (not_lt.mpr hwithin)]
    · rw [if_neg hwithin, if_pos (not_le.mp hwithin)]
  rw [← hflip]
  unfold choosePrimary
  cases hbalance : utils.balanceType <;> rw [hbalance] at htype <;> first
    | rfl
    | exact htype.elim

/-- The longer hit decides when it is within the threshold. -/
theorem choosePrimary_longerHit (htype : SloAware utils.balanceType) {r other : Fin n}
    {metrics : Fin n → CandidateMetrics}
    (hhit : (metrics other).prefixCacheHitLen < (metrics r).prefixCacheHitLen)
    (hwithin : utils.Within (metrics r)) :
    utils.choosePrimary r other metrics = (r, other) ∧
      utils.choosePrimary other r metrics = (r, other) := by
  obtain ⟨hfirst, hsecond⟩ := utils.selectReplicas_max
    (fun r => (metrics r).prefixCacheHitLen) (fun r => (metrics r).runningReqBlocksCnt) hhit
  rw [utils.choosePrimary_eq htype, utils.choosePrimary_eq htype, hfirst, hsecond]
  exact ⟨if_pos hwithin, if_pos hwithin⟩

/-- When only one of the two is within the threshold it is chosen: by its hit, or because the
other one has strictly more to do, even after rounding. -/
theorem choosePrimary_onlyOneWithin (htype : SloAware utils.balanceType)
    (hexact : ∀ x, utils.fl x = x) (htpot : 1 / 10000 ≤ utils.prefillTpot) {r other : Fin n}
    {metrics : Fin n → CandidateMetrics}
    (httft : ∀ x, x = r ∨ x = other → (metrics x).ttft =
      utils.round 4 (utils.prefillTime (metrics x).numVirtualPendingTokens))
    (hwithin : utils.Within (metrics r)) (hover : ¬ utils.Within (metrics other)) :
    utils.choosePrimary r other metrics = (r, other) ∧
      utils.choosePrimary other r metrics = (r, other) := by
  have hless : (metrics r).ttft < (metrics other).ttft := by
    rw [httft r (Or.inl rfl), httft other (Or.inr rfl)]
    simp only [round, prefillTime, hexact]
    apply pyRound_intCast_mul_lt
    · norm_num at htpot ⊢
      exact htpot
    · exact hwithin.trans_lt (not_le.mp hover)
  obtain ⟨hfirst, hsecond⟩ := utils.selectReplicas_min
    (fun r => (metrics r).ttft) (fun r => (metrics r).runningReqBlocksCnt) hless
  rw [utils.choosePrimary_eq htype, utils.choosePrimary_eq htype, hfirst, hsecond]
  -- the replica with the longer hit may be either of the two
  constructor
  · rcases utils.selectReplicas_pair r other
      (fun r => (metrics r).prefixCacheHitLen)
      (fun r => (metrics r).runningReqBlocksCnt) true with hhigh | hhigh
    · rw [hhigh]
      exact if_pos hwithin
    · rw [hhigh]
      exact if_neg hover
  · rcases utils.selectReplicas_pair other r
      (fun r => (metrics r).prefixCacheHitLen)
      (fun r => (metrics r).runningReqBlocksCnt) true with hhigh | hhigh
    · rw [hhigh]
      exact if_neg hover
    · rw [hhigh]
      exact if_pos hwithin

theorem choosePrimary_pair (htype : SloAware utils.balanceType) (r other : Fin n)
    (metrics : Fin n → CandidateMetrics) :
    utils.choosePrimary r other metrics = (r, other) ∨
      utils.choosePrimary r other metrics = (other, r) := by
  rw [utils.choosePrimary_eq htype]
  split
  · exact utils.selectReplicas_pair _ _ _ _ _
  · exact utils.selectReplicas_pair _ _ _ _ _

end Choice

/-! ## The placement -/

section Placement

variable [LookupCache κ]

/-- The placement that the metrics of the two candidates lead to. -/
def placementOf (request : Request) (metrics1 metrics2 : CandidateMetrics) : Placement n :=
  let replicaId1 := (utils.candidates request).1
  let replicaId2 := (utils.candidates request).2
  let metrics := fun r => if r = replicaId2 then metrics2 else metrics1
  let chosen := utils.choosePrimary replicaId1 replicaId2 metrics
  ⟨metrics, chosen.1, chosen.2⟩

/-- All that is compared is read in one state, before the first suspension point. -/
theorem candidateMetrics_measured {env : ν × World n κ → ν × World n κ → Prop}
    {request : Request} {r : Fin n} {s s' : ν × World n κ} {metrics : CandidateMetrics}
    (hrun : Coro.Runs env (utils.candidateMetrics request r) s metrics s') :
    utils.MeasuredIn s.2 request r metrics := by
  simp only [candidateMetrics, look, Coro.shared, Coro.runs_bind, Coro.runs_act,
    Coro.runs_suspend] at hrun
  obtain ⟨_, _, ⟨rfl, rfl⟩, _, _, ⟨rfl, rfl⟩, _, _, ⟨rfl, rfl⟩, _, _, ⟨rfl, rfl⟩, hrun⟩ := hrun
  -- the load, the delay and the running blocks, read after the suspension, are not compared
  obtain ⟨_, _, -, _, _, -, _, _, -, _, _, -, hrun⟩ := hrun
  obtain ⟨rfl, -⟩ := Coro.runs_ret.mp hrun
  refine ⟨rfl, ?_, rfl, rfl⟩
  apply max_eq_right
  exact sub_nonneg.mpr (numRecomputeTokens_le _ _)

/-- A run of `choosePlacement` measures one candidate, then, where that ended, the other one,
and compares them. -/
theorem choosePlacement_measured {env : ν × World n κ → ν × World n κ → Prop}
    {request : Request} {s s' : ν × World n κ} {placement : Placement n}
    (hrun : Coro.Runs env (utils.choosePlacement request) s placement s') :
    ∃ (u : ν × World n κ) (metrics1 metrics2 : CandidateMetrics),
      Coro.Runs env (utils.candidateMetrics request (utils.candidates request).1) s metrics1 u ∧
      Coro.Runs env (utils.candidateMetrics request (utils.candidates request).2) u metrics2 s' ∧
      placement = utils.placementOf request metrics1 metrics2 := by
  obtain ⟨metrics1, u, hrun1, hrun⟩ := Coro.runs_bind.mp hrun
  obtain ⟨metrics2, t, hrun2, hrun⟩ := Coro.runs_bind.mp hrun
  obtain ⟨rfl, rfl⟩ := Coro.runs_ret.mp hrun
  exact ⟨u, metrics1, metrics2, hrun1, hrun2, rfl⟩

/-- Measured candidates are placed as the guarantees say. -/
theorem placementOf_sloPlacement (hn : 2 ≤ n) (htype : SloAware utils.balanceType)
    (hexact : ∀ x, utils.fl x = x) (htpot : 1 / 10000 ≤ utils.prefillTpot) {request : Request}
    {w w' : World n κ} {metrics1 metrics2 : CandidateMetrics}
    (h1 : utils.MeasuredIn w request (utils.candidates request).1 metrics1)
    (h2 : utils.MeasuredIn w' request (utils.candidates request).2 metrics2) :
    utils.SloPlacement request (utils.placementOf request metrics1 metrics2) := by
  have hne := utils.candidates_ne hn request
  set c1 := (utils.candidates request).1 with hc1
  set c2 := (utils.candidates request).2 with hc2
  set metrics : Fin n → CandidateMetrics := fun r => if r = c2 then metrics2 else metrics1
    with hmetrics
  have hcandidates : utils.candidates request = (c1, c2) := rfl
  have hm1 : metrics c1 = metrics1 := if_neg hne
  have hm2 : metrics c2 = metrics2 := if_pos rfl
  have hplacement : utils.placementOf request metrics1 metrics2 =
      ⟨metrics, (utils.choosePrimary c1 c2 metrics).1,
        (utils.choosePrimary c1 c2 metrics).2⟩ := rfl
  -- the two candidates, in whatever order a guarantee names them
  have hpair : ∀ r other, utils.AreCandidates request r other →
      r = c1 ∧ other = c2 ∨ r = c2 ∧ other = c1 := by
    rintro r other (horder | horder)
    · rw [hcandidates, Prod.mk.injEq] at horder
      exact Or.inl ⟨horder.1.symm, horder.2.symm⟩
    · rw [hcandidates, Prod.mk.injEq] at horder
      exact Or.inr ⟨horder.2.symm, horder.1.symm⟩
  have hhit : ∀ r, r = c1 ∨ r = c2 →
      (metrics r).prefixCacheHitLen = hitLen request (metrics r) := by
    rintro r (rfl | rfl)
    · rw [hm1]
      exact h1.hit
    · rw [hm2]
      exact h2.hit
  have httft : ∀ r, r = c1 ∨ r = c2 → (metrics r).ttft =
      utils.round 4 (utils.prefillTime (metrics r).numVirtualPendingTokens) := by
    rintro r (rfl | rfl)
    · rw [hm1]
      exact h1.ttft
    · rw [hm2]
      exact h2.ttft
  rw [hplacement]
  refine ⟨?_, ?_, ?_, ?_⟩
  · rcases utils.choosePrimary_pair htype c1 c2 metrics with hchosen | hchosen
    · simpa [hchosen] using hne
    · simpa [hchosen] using hne.symm
  · rcases utils.choosePrimary_pair htype c1 c2 metrics with hchosen | hchosen
    · exact Or.inl (by rw [hchosen])
    · exact Or.inr (by rw [hchosen])
  · intro r other hro hless hwithin
    rcases hpair r other hro with ⟨rfl, rfl⟩ | ⟨rfl, rfl⟩
    · rw [← hhit _ (Or.inl rfl), ← hhit _ (Or.inr rfl)] at hless
      rw [(utils.choosePrimary_longerHit htype hless hwithin).1]
    · rw [← hhit _ (Or.inl rfl), ← hhit _ (Or.inr rfl)] at hless
      rw [(utils.choosePrimary_longerHit htype hless hwithin).2]
  · intro r other hro hwithin hover
    rcases hpair r other hro with ⟨rfl, rfl⟩ | ⟨rfl, rfl⟩
    · rw [(utils.choosePrimary_onlyOneWithin htype hexact htpot httft hwithin hover).1]
    · have httft' : ∀ r, r = c2 ∨ r = c1 → (metrics r).ttft =
          utils.round 4 (utils.prefillTime (metrics r).numVirtualPendingTokens) :=
        fun r hr => httft r hr.symm
      rw [(utils.choosePrimary_onlyOneWithin htype hexact htpot httft' hwithin hover).2]

/-- In every run of `add_request_to_best_global_queue`, whatever goes on at its suspension
points, the first candidate is measured where the call starts and the second one where the
first reading has ended, and the request ends up with the replicas of a placement that keeps
the guarantees for what was measured. Times are exact. -/
theorem placement_sloAware (hn : 2 ≤ n) (htype : SloAware utils.balanceType)
    (hexact : ∀ x, utils.fl x = x) (htpot : 1 / 10000 ≤ utils.prefillTpot)
    (env : ν × World n κ → ν × World n κ → Prop)
    (placed : ν → ν) (request : Request) (s s' : ν × World n κ)
    (hrun : Coro.Runs env (utils.addRequestToBestGlobalQueue placed (some request)) s () s') :
    let c1 := (utils.candidates request).1
    let c2 := (utils.candidates request).2
    ∃ (placement : Placement n) (u t : ν × World n κ),
      Coro.Runs env (utils.candidateMetrics request c1) s (placement.metrics c1) u ∧
      Coro.Runs env (utils.candidateMetrics request c2) u (placement.metrics c2) t ∧
      Coro.Runs env (utils.choosePlacement request) s placement t ∧
      utils.MeasuredIn s.2 request c1 (placement.metrics c1) ∧
      utils.MeasuredIn u.2 request c2 (placement.metrics c2) ∧
      utils.SloPlacement request placement ∧
      (s'.2.attrs request).primaryReplica = (placement.primaryReplicaId : ℕ) ∧
      (s'.2.attrs request).secondReplica = (placement.secondReplicaId : ℕ) := by
  intro c1 c2
  obtain ⟨placement, t, hqueue, hrest⟩ := Coro.runs_bind.mp hrun
  obtain ⟨placement', t', hchoose, hqueue⟩ := Coro.runs_bind.mp hqueue
  -- what is noted and pushed afterwards does not change the choice
  obtain ⟨_, _, -, hqueue⟩ := Coro.runs_bind.mp hqueue
  obtain ⟨_, _, -, hqueue⟩ := Coro.runs_bind.mp hqueue
  obtain ⟨rfl, -⟩ := Coro.runs_ret.mp hqueue
  obtain ⟨_, _, -, hassign⟩ := Coro.runs_bind.mp hrest
  obtain ⟨-, rfl⟩ := Coro.runs_act.mp hassign
  obtain ⟨u, metrics1, metrics2, hrun1, hrun2, rfl⟩ := utils.choosePlacement_measured hchoose
  have h1 := utils.candidateMetrics_measured hrun1
  have h2 := utils.candidateMetrics_measured hrun2
  have hne : c1 ≠ c2 := utils.candidates_ne hn request
  -- the placement keeps both readings under the names of their candidates
  have hm1 : (utils.placementOf request metrics1 metrics2).metrics c1 = metrics1 := if_neg hne
  have hm2 : (utils.placementOf request metrics1 metrics2).metrics c2 = metrics2 := if_pos rfl
  refine ⟨utils.placementOf request metrics1 metrics2, u, t', ?_, ?_, hchoose, ?_, ?_,
    utils.placementOf_sloPlacement hn htype hexact htpot h1 h2, ?_, ?_⟩
  · rw [hm1]
    exact hrun1
  · rw [hm2]
    exact hrun2
  · rw [hm1]
    exact h1
  · rw [hm2]
    exact h2
  · simp [World.assignReplicas]
  · simp [World.assignReplicas]

end Placement

/-- Both candidates are overloaded: with the request, the first one has 101 tokens to do and
the second one 121. -/
theorem placement_sloAware_tight :
    let c1 := (tightUtils.candidates (oneTokenRequest 1)).1
    let c2 := (tightUtils.candidates (oneTokenRequest 1)).2
    let s' := ((tightUtils.addRequestToBestGlobalQueue id (some (oneTokenRequest 1))).atomically
      ((), tightWorld)).2
    ∃ (placement : Placement 3) (u t : Unit × World 3 SmallStore),
      Coro.Runs (fun _ _ => True) (tightUtils.candidateMetrics (oneTokenRequest 1) c1)
        ((), tightWorld) (placement.metrics c1) u ∧
      Coro.Runs (fun _ _ => True) (tightUtils.candidateMetrics (oneTokenRequest 1) c2)
        u (placement.metrics c2) t ∧
      Coro.Runs (fun _ _ => True) (tightUtils.choosePlacement (oneTokenRequest 1))
        ((), tightWorld) placement t ∧
      tightUtils.MeasuredIn tightWorld (oneTokenRequest 1) c1 (placement.metrics c1) ∧
      tightUtils.MeasuredIn u.2 (oneTokenRequest 1) c2 (placement.metrics c2) ∧
      tightUtils.SloPlacement (oneTokenRequest 1) placement ∧
      (s'.2.attrs (oneTokenRequest 1)).primaryReplica = (placement.primaryReplicaId : ℕ) ∧
      (s'.2.attrs (oneTokenRequest 1)).secondReplica = (placement.secondReplicaId : ℕ) :=
  tightUtils.placement_sloAware (by decide) trivial (fun _ => rfl) (by norm_num [tightUtils])
    (fun _ _ => True) id (oneTokenRequest 1) ((), tightWorld) _
    (Coro.runs_atomically (fun _ => trivial) _ _)

end DualMap.Scheduler.DoubleHashGlobalSchedulerUtils
