import DualMap.Entities.ReplicaAccounting
import DualMap.Foundation.PurgedWindow

/-!
# The Request Rate of a Replica

`add_request` appends the time of an admission and then drops the times that have left the
window. `get_request_rate` only reads: it divides the number of all stored times by the age
of the oldest one, or by the window if that is shorter. After a pause the stored times of the
last admissions may lie before the window of the reader, and they are counted all the same.

## Main Results

- `requestTimestamps_run`: the stored times after any calls
- `requestRate_exact_iff`: when the rate is that of the window before the query
-/

namespace DualMap

open Cache PurgedWindow

namespace Replica

variable {κ : Type}

/-- The value that `get_request_rate` rounds (`getRequestRate_eq`). -/
def requestRate (replica : Replica κ) (currentTime : ℚ) : ℚ :=
  match replica.requestTimestamps with
  | [] => 0
  | oldestTimestamp :: _ =>
    let windowDuration := min (currentTime - oldestTimestamp) replica.windowSize
    if windowDuration ≤ 0 then 0
    else replica.requestTimestamps.length / windowDuration

theorem getRequestRate_eq (replica : Replica κ) (currentTime : ℚ) :
    replica.getRequestRate currentTime = pyRound 4 (replica.requestRate currentTime) := by
  have hzero : pyRound 4 0 = 0 := by decide +kernel
  cases htimes : replica.requestTimestamps with
  | nil => simp only [getRequestRate, requestRate, htimes, hzero]
  | cons oldest rest =>
    simp only [getRequestRate, requestRate, htimes]
    split
    · exact hzero.symm
    · rfl

end Replica

namespace ReplicaState

variable {κ : Type}

/-! ## Arrivals -/

/-- The time that a call adds to those of the admissions before it. -/
def Call.arrival [PrefixCache κ] (s : ReplicaState κ) : Call → List ℚ
  | .addRequest request now =>
    if Py.returned (Replica.addRequest request now s) = some true then [now] else []
  | .completeRequestPrefill _ _ _ => []
  | .completeRequestDecode _ _ => []
  | .abortRequest _ => []

/-- A run of the replica from a state, with the times of the admissions so far. -/
inductive ArrivalRun [PrefixCache κ] (encode : String → Except PyException (List ℕ))
    (start : ReplicaState κ) : List ℚ → ReplicaState κ → Prop where
  | start : ArrivalRun encode start [] start
  | call {times : List ℚ} {s : ReplicaState κ} (h : ArrivalRun encode start times s)
      (call : Call) : ArrivalRun encode start (times ++ call.arrival s) (call.after encode s)
  /-- `get_load_states` -/
  | load {times : List ℚ} {s : ReplicaState κ} (h : ArrivalRun encode start times s)
      (rateNow prefillNow : ℚ) : ArrivalRun encode start times
        { s with replica := (s.replica.getLoadStates rateNow prefillNow).2 }
  /-- Others write into requests. -/
  | others {times : List ℚ} {s : ReplicaState κ} (h : ArrivalRun encode start times s)
      (attrs : Request → RequestAttrs) :
      ArrivalRun encode start times { s with attrs := attrs }

/-- The stored times are those kept of the admissions. -/
structure Clocked (window : ℚ) (times : List ℚ) (s : ReplicaState κ) : Prop where
  windowSize : s.replica.windowSize = window
  requestTimestamps : s.replica.requestTimestamps = kept id window times

variable {window : ℚ} {times : List ℚ}

/-- Calls that leave the two fields alone. -/
theorem Clocked.of_same {s s' : ReplicaState κ} (h : Clocked window times s)
    (hwindow : s'.replica.windowSize = s.replica.windowSize)
    (htimes : s'.replica.requestTimestamps = s.replica.requestTimestamps) :
    Clocked window times s' :=
  ⟨hwindow.trans h.windowSize, htimes.trans h.requestTimestamps⟩

/-- An admission appends its time and purges relative to it. -/
theorem Clocked.admitted {s : ReplicaState κ} {now : ℚ} (h : Clocked window times s)
    (horder : InOrder id (times ++ [now])) (request : Request) (tokens : ℤ) :
    Clocked window (times ++ [now]) (s.admitted request tokens now) where
  windowSize := h.windowSize
  requestTimestamps := by
    show (s.replica.requestTimestamps ++ [now]).dropWhile
      (fun t => t < now - s.replica.windowSize) = _
    rw [h.windowSize, h.requestTimestamps]
    exact kept_concat horder

/-- What a call does to the two fields: an admission, or nothing. -/
theorem Call.after_clocked [PrefixCache κ] (encode : String → Except PyException (List ℕ))
    {s : ReplicaState κ} (h : Clocked window times s) (call : Call)
    (horder : InOrder id (times ++ call.arrival s)) :
    Clocked window (times ++ call.arrival s) (call.after encode s) := by
  cases call with
  | addRequest request now =>
    -- an admission is the only call that writes a time
    rcases addRequest_cases request now s with heq | ⟨r, tokens, -, -, -, heq⟩
    · simpa [Call.arrival, Call.after, heq, Py.returned] using h
    · simp only [Call.arrival, heq, Py.returned, if_true] at horder
      simpa [Call.arrival, Call.after, heq, Py.returned] using h.admitted horder r tokens
  | completeRequestPrefill request ttft now =>
    rw [Call.arrival, List.append_nil]
    cases request with
    | none => exact h
    | some r =>
      obtain ⟨cache, ⟨fault, -, heq⟩ | ⟨value, -, ⟨-, heq⟩ | ⟨-, heq⟩⟩⟩ :=
        completeRequestPrefill_cases r ttft now s
      · exact h.of_same (by simp [Call.after, heq, withCache])
          (by simp [Call.after, heq, withCache])
      · exact h.of_same (by simp [Call.after, heq, withCache, prefilled])
          (by simp [Call.after, heq, withCache, prefilled])
      · exact h.of_same (by simp [Call.after, heq, withCache])
          (by simp [Call.after, heq, withCache])
  | completeRequestDecode request outputText =>
    rw [Call.arrival, List.append_nil]
    cases request with
    | none => exact h
    | some r =>
      obtain ⟨cache, ⟨outputTokenIds, value, -, -, heq⟩ | ⟨fault, -, heq⟩⟩ :=
        completeRequestDecode_cases encode r outputText s
      · exact h.of_same (by simp [Call.after, heq, withCache, finished])
          (by simp [Call.after, heq, withCache, finished])
      · exact h.of_same (by simp [Call.after, heq, withCache, finished])
          (by simp [Call.after, heq, withCache, finished])
  | abortRequest request =>
    rw [Call.arrival, List.append_nil]
    cases request with
    | none => exact h
    | some r =>
      obtain ⟨res, heq⟩ := abortRequest_eq r s
      have hdropped : Clocked window times (s.dropped r) := by
        unfold dropped
        split
        · exact h.of_same rfl rfl
        · exact h
      exact hdropped.of_same (by simp [Call.after, heq, finished])
        (by simp [Call.after, heq, finished])

/-- After any calls, admissions in the order of time leave stored what the window kept. -/
theorem requestTimestamps_run [PrefixCache κ] {encode : String → Except PyException (List ℕ)}
    {start s : ReplicaState κ} (hstart : Clocked window [] start)
    (hrun : ArrivalRun encode start times s) (horder : InOrder id times) :
    Clocked window times s := by
  induction hrun with
  | start => exact hstart
  | call hrun call ih =>
    exact call.after_clocked encode (ih (horder.sublist (List.sublist_append_left _ _))) horder
  | load hrun rateNow prefillNow ih =>
    refine (ih horder).of_same ?_ ?_
    · unfold Replica.getLoadStates
      dsimp only
      split <;> rfl
    · unfold Replica.getLoadStates
      dsimp only
      split <;> rfl
  | others hrun attrs ih => exact (ih horder).of_same rfl rfl

/-! ## The rate of a window -/

/-- The rate of the requests in a window that ends at `t`: 0 without a request, and otherwise
their number by the time since the oldest of them. That time has to be positive. -/
def IsRateOf (rate t : ℚ) : List ℚ → Prop
  | [] => rate = 0
  | oldest :: rest => 0 < t - oldest → rate = (oldest :: rest).length / (t - oldest)

/-- Nothing stored has left the window; or what has left it, relative to what is still there,
happens to make up for the longer window. -/
def RateExactAt (window : ℚ) (times : List ℚ) (t : ℚ) : Prop :=
  (∀ u ∈ kept id window times, t - window ≤ u) ∨
    ∃ oldest rest, recent id (t - window) times = oldest :: rest ∧
      (t = oldest ∨
        (kept id window times).length * (t - oldest) = window * (oldest :: rest).length)

theorem requestRate_of_fresh {s : ReplicaState κ} {t : ℚ} (h : Clocked window times s)
    (hfresh : ∀ u ∈ kept id window times, t - window ≤ u) :
    IsRateOf (s.replica.requestRate t) t (kept id window times) := by
  unfold Replica.requestRate
  rw [h.requestTimestamps, h.windowSize]
  cases hkept : kept id window times with
  | nil => rfl
  | cons oldest rest =>
    intro hpos
    have holdest := hfresh oldest (hkept ▸ List.mem_cons_self)
    -- the age of the oldest is the shorter of the two
    simp only [min_eq_left (show t - oldest ≤ window by linarith), if_neg (not_le.mpr hpos)]

theorem requestRate_of_stale {s : ReplicaState κ} {t : ℚ} (h : Clocked window times s)
    (hwindow : 0 < window) (horder : InOrder id times) {u : ℚ} (hu : u ∈ kept id window times)
    (hstale : u < t - window) :
    s.replica.requestRate t = (kept id window times).length / window := by
  have hsorted : InOrder id (kept id window times) := horder.sublist (kept_sublist _ _)
  unfold Replica.requestRate
  rw [h.requestTimestamps, h.windowSize]
  cases hkept : kept id window times with
  | nil => rw [hkept] at hu; cases hu
  | cons oldest rest =>
    rw [hkept] at hu hsorted
    have holdest : oldest ≤ u := by
      rcases List.mem_cons.mp hu with rfl | hu
      · exact le_rfl
      · exact (List.pairwise_cons.mp hsorted).1 u hu
    -- the window is the shorter of the two
    simp only [min_eq_right (show window ≤ t - oldest by linarith), if_neg (not_le.mpr hwindow)]

/-- Where a stale time is stored, all stored times are counted over the whole window. -/
theorem isRateOf_stale_iff {count : ℕ} {t : ℚ} {l : List ℚ} (hwindow : 0 < window)
    (hcount : 0 < count) (hl : ∀ u ∈ l, u ≤ t) :
    IsRateOf (count / window) t l ↔
      ∃ oldest rest, l = oldest :: rest ∧
        (t = oldest ∨ count * (t - oldest) = window * (oldest :: rest).length) := by
  have hcount' : (0 : ℚ) < count := Nat.cast_pos.mpr hcount
  -- nothing was admitted in the window, but the stale rate is positive
  cases l with
  | nil =>
    have hne : (count : ℚ) / window ≠ 0 := (div_pos hcount' hwindow).ne'
    simp [IsRateOf, hne]
  | cons oldest rest =>
    have hle := hl oldest List.mem_cons_self
    constructor
    · intro hrate
      refine ⟨oldest, rest, rfl, ?_⟩
      rcases hle.eq_or_lt with heq | hlt
      · exact Or.inl heq.symm
      · have hpos : 0 < t - oldest := sub_pos.mpr hlt
        exact Or.inr ((div_eq_div_iff hwindow.ne' hpos.ne').mp (hrate hpos) |>.trans (mul_comm _ _))
    · rintro ⟨oldest', rest', heq, hcases⟩ hpos
      obtain ⟨rfl, rfl⟩ := List.cons.inj heq
      rcases hcases with rfl | hproduct
      · exact absurd hpos (by simp)
      · exact (div_eq_div_iff hwindow.ne' hpos.ne').mpr (hproduct.trans (mul_comm _ _))

/-- After any calls on a new replica that admit requests in the order of time, and at any later
time, the rate that is rounded is that of the last 180 seconds if and only if nothing stored is
older or the older requests happen to make up for the longer time. -/
theorem requestRate_exact_iff [PrefixCache κ] (encode : String → Except PyException (List ℕ))
    (replicaSloBudget : ℤ) (blockSize : ℕ) (cache : κ) (attrs : Request → RequestAttrs)
    {times : List ℚ} {s : ReplicaState κ}
    (hrun : ArrivalRun encode ⟨Replica.init replicaSloBudget blockSize cache, attrs⟩ times s)
    (horder : InOrder id times) {t : ℚ} (ht : ∀ u ∈ times, u ≤ t) :
    s.replica.getRequestRate t = pyRound 4 (s.replica.requestRate t) ∧
      (IsRateOf (s.replica.requestRate t) t (recent id (t - 180) times) ↔
        RateExactAt 180 times t) := by
  refine ⟨s.replica.getRequestRate_eq t, ?_⟩
  have hclocked : Clocked 180 times s := requestTimestamps_run ⟨rfl, rfl⟩ hrun horder
  by_cases hfresh : ∀ u ∈ kept id 180 times, t - 180 ≤ u
  · have hsame : kept id 180 times = recent id (t - 180) times := kept_eq_recent ht hfresh
    have hrate := requestRate_of_fresh hclocked hfresh
    rw [hsame] at hrate
    exact iff_of_true hrate (Or.inl hfresh)
  · obtain ⟨u, hu, hstale⟩ : ∃ u ∈ kept id 180 times, u < t - 180 := by
      by_contra hnone
      exact hfresh (fun u hu => not_lt.mp (fun hlt => hnone ⟨u, hu, hlt⟩))
    rw [requestRate_of_stale hclocked (by norm_num) horder hu hstale, RateExactAt,
      or_iff_right hfresh]
    exact isRateOf_stale_iff (by norm_num) (List.length_pos_of_mem hu)
      (fun v hv => ht v (mem_recent.mp hv).1)

/-- A new replica with a budget of 10, and a run of one admission at time 0. -/
theorem oneAdmission_run :
    ArrivalRun silentTokenizer
      ⟨Replica.init 10 1 (PrefixKvCacheStore.init _ PrefixKVCacheMgr.singleBlockEngine),
        fun _ => { actualNumPrefillTokens := 0 }⟩ [0] afterOneAdmission :=
  ArrivalRun.start.call (.addRequest (some threeTokenRequest) 0)

/-- A query long after the only admission counts it in a window that is empty. -/
theorem idleReplica_rate :
    ArrivalRun silentTokenizer
        ⟨Replica.init 10 1 (PrefixKvCacheStore.init _ PrefixKVCacheMgr.singleBlockEngine),
          fun _ => { actualNumPrefillTokens := 0 }⟩ [0] afterOneAdmission ∧
      ¬ IsRateOf (afterOneAdmission.replica.requestRate 1000) 1000
        (recent id (1000 - 180) [0]) := by
  refine ⟨oneAdmission_run, ?_⟩
  have hempty : recent id (1000 - 180) [(0 : ℚ)] = [] := by decide +kernel
  rw [hempty]
  show afterOneAdmission.replica.requestRate 1000 ≠ 0
  decide +kernel

/-- A call of the run, with what it adds to the times. -/
theorem ArrivalRun.arrives [PrefixCache κ] {encode : String → Except PyException (List ℕ)}
    {start s : ReplicaState κ} (h : ArrivalRun encode start times s) (call : Call)
    (arrivals : List ℚ) (harrivals : call.arrival s = arrivals) :
    ArrivalRun encode start (times ++ arrivals) (call.after encode s) :=
  harrivals ▸ h.call call

theorem twoRequests_run : ArrivalRun silentTokenizer unusedReplica [0, 50] afterTwoRequests := by
  have hstart : ArrivalRun silentTokenizer unusedReplica [] unusedReplica := .start
  have hfirst := hstart.arrives (.addRequest (some threeTokenRequest) 0) [0] (by decide +kernel)
  have hruns := hfirst.arrives (.completeRequestPrefill (some threeTokenRequest) 1 1) [] rfl
  have hsecond := hruns.arrives (.addRequest (some fourTokenRequest) 50) [50] (by decide +kernel)
  have hends := hsecond.arrives (.completeRequestDecode (some threeTokenRequest) "") [] rfl
  rw [afterTwoRequests, twoRequestsCalls]
  simpa only [List.foldl_cons, List.foldl_nil, List.nil_append, List.cons_append, List.append_nil]
    using hends

/-- Two admissions of the last 100 seconds, the first of which has ended. -/
theorem requestRate_exact_iff_twoRequests :
    afterTwoRequests.replica.getRequestRate 100 = pyRound 4 (2 / 100) ∧
      IsRateOf (afterTwoRequests.replica.requestRate 100) 100 (recent id (100 - 180) [0, 50]) := by
  obtain ⟨hround, hiff⟩ := requestRate_exact_iff silentTokenizer 10 1 _ _ twoRequests_run
    (by decide +kernel) (t := 100) (by decide +kernel)
  have hexact := hiff.mpr (Or.inl (by decide +kernel))
  have hrate : afterTwoRequests.replica.requestRate 100 = 2 / 100 := by decide +kernel
  rw [hround, hrate]
  exact ⟨rfl, hrate ▸ hexact⟩

end ReplicaState
end DualMap
