import DualMap.Client.Lifecycle

/-!
# When a Sent Request Releases Its Replica

`async_send_request` aborts the request unless the call was successful. A successful call
has released the replica exactly when some `[DONE]` came after the first content
(`released_iff`). A stream that ends well without any content is the simplest one that does
not (`silent_answer_leaks`).
-/

namespace DualMap.Client

open Cache

variable {κ : Type}

/-- The request is in neither list of the replica, and the budget changed only by what other
tasks did. -/
def Released (request : Request) (s t : SendState κ) : Prop :=
  request ∉ t.state.replica.pendingRequests ∧ request ∉ t.state.replica.runningRequests ∧
    t.state.replica.currentBudget - s.state.replica.currentBudget =
      t.budgetByOthers - s.budgetByOthers

/-- A request that the replica does not know is absent. -/
theorem atPhase_absent {request : Request} {good : κ → Prop} {Calm : Prop} {s : SendState κ}
    (hpending : request ∉ s.state.replica.pendingRequests)
    (hrunning : request ∉ s.state.replica.runningRequests)
    (hcache : Calm → good s.state.replica.cache) :
    AtPhase request good Calm (s.state.replica.currentBudget - s.budgetByOthers) .absent s where
  pending := by simpa using List.count_eq_zero.mpr hpending
  running := by simpa using List.count_eq_zero.mpr hrunning
  budget := by simp
  cache := hcache

/-- The replica is released exactly when the request is absent: a pending or a running one is in
one of its lists. -/
theorem AtPhase.released_iff_absent {request : Request} {good : κ → Prop} {Calm : Prop}
    {phase : Phase} {s t : SendState κ}
    (h : AtPhase request good Calm (s.state.replica.currentBudget - s.budgetByOthers) phase t) :
    Released request s t ↔ phase = .absent := by
  constructor
  · rintro ⟨hpending, hrunning, -⟩
    -- in neither list, the request can be in no other phase
    have hp := h.pending
    have hr := h.running
    rw [List.count_eq_zero.mpr hpending] at hp
    rw [List.count_eq_zero.mpr hrunning] at hr
    cases phase with
    | absent => rfl
    | pending => simp at hp
    | running => simp at hr
  · rintro rfl
    -- absent, it holds nothing of the budget
    have hbudget := h.budget
    refine ⟨List.count_eq_zero.mp (by simpa using h.pending),
      List.count_eq_zero.mp (by simpa using h.running), ?_⟩
    simp only [reduceCtorEq, if_false, add_zero] at hbudget
    linarith

/-- A call that returns has released the replica if it failed or some `[DONE]` came after the
first content. As long as saving in the cache and the tokenizer do not raise, this is the
only way; when they do raise, the call fails. -/
theorem released_iff [LookupCache κ] (env : ClientEnv) (good : κ → Prop)
    (targetIpPort : String) (request : Request) (http : HttpOutcome) {s t : SendState κ}
    {out : Option RequestFuncOutput}
    (hpending : request ∉ s.state.replica.pendingRequests)
    (hrunning : request ∉ s.state.replica.runningRequests)
    (hrun : Coro.Runs (Others request good)
      (asyncSendRequest env (some targetIpPort) (some request) http) s (.ok out) t) :
    (http.Releases → Released request s t) ∧
      (GoodSaves good env.encode → good s.state.replica.cache →
        (Released request s t ↔ http.Releases)) := by
  have hcalm : GoodSaves good env.encode ∧ good s.state.replica.cache →
      GoodSaves good env.encode := And.left
  have hstart : AtPhase request good (GoodSaves good env.encode ∧ good s.state.replica.cache)
      (s.state.replica.currentBudget - s.budgetByOthers) .absent s :=
    atPhase_absent hpending hrunning And.right
  obtain ⟨phase, hphase, hreleases, honly⟩ :=
    asyncSendRequest_ensures hcalm targetIpPort http s (.ok out) t hstart hrun out rfl
  constructor
  · intro h
    exact hphase.released_iff_absent.mpr (hreleases h)
  · intro hsaves hgood
    constructor
    · intro h
      exact honly ⟨hsaves, hgood⟩ (hphase.released_iff_absent.mp h)
    · intro h
      exact hphase.released_iff_absent.mpr (hreleases h)

/-! ## The cache of the code -/

/-- A pool of at least 100 blocks is a good cache: its saves never raise. -/
theorem goodSaves_store {rt : Runtime}
    (hzero : ∀ isFirstBlock prevBlockHash tokens, rt.hash isFirstBlock prevBlockHash tokens ≠ 0)
    {encode : String → Except PyException (List ℕ)}
    (hencode : ∀ text, ∃ tokenIds, encode text = .ok tokenIds) :
    GoodSaves (fun store : PrefixKvCacheStore rt => store.cacheMgr.WellFormed ∧
      100 ≤ store.cacheMgr.cacheEngine.numBlocks) encode := by
  -- both saves are calls on a large pool, which refine the abstract order
  have hcall : ∀ (call : PrefixKVCacheMgr.Call) (store : PrefixKvCacheStore rt),
      store.cacheMgr.WellFormed ∧ 100 ≤ store.cacheMgr.cacheEngine.numBlocks →
      ∃ num store', PrefixKvCacheStore.onMgr (call.run rt) store = .ok num store' ∧
        store'.cacheMgr.WellFormed ∧ 100 ≤ store'.cacheMgr.cacheEngine.numBlocks := by
    rintro call store ⟨hwf, hlarge⟩
    obtain ⟨num, m', hrun, hwf', -, hengine⟩ := call.run_refines hzero hwf (Or.inl hlarge)
    refine ⟨num, ⟨m'⟩, Py.zoom_ok hrun, hwf', ?_⟩
    rw [hengine]
    exact hlarge
  refine ⟨?_, ?_, hencode⟩
  · intro tokenIds store hgood
    exact hcall (.save tokenIds) store hgood
  · intro requestId tokenIds store hgood
    exact hcall (.savePrefill requestId tokenIds) store hgood

/-! ## A leak -/

/-- A clock that advances by one with each reading, and a tokenizer without tokens. -/
def tickingEnv : ClientEnv := ⟨fun ticks => ticks, ReplicaState.silentTokenizer⟩

/-- A request of three tokens. -/
def sampleRequest : Request := ReplicaState.threeTokenRequest

/-- A replica that has not seen any request, with a cache of 128 blocks of 16 tokens. -/
def idleReplica : SendState (PrefixKvCacheStore PrefixKVCacheMgr.encodingRuntime) where
  state := ⟨Replica.init 10 16 (PrefixKvCacheStore.init _ ⟨16, 1, 128, by decide⟩),
    fun _ => { actualNumPrefillTokens := 0 }⟩
  ticks := 0
  budgetByOthers := 0

theorem others_refl (request : Request) (good : κ → Prop) (s : SendState κ) :
    Others request good s s :=
  ⟨rfl, rfl, rfl, by simp, id⟩

/-- An answer with a role and no content, which ends well. -/
def silentAnswer : HttpOutcome := .responded 200 [.data .absent none, .done] .closed

/-- The call returns successfully, and the request is pending for ever. -/
theorem silent_answer_leaks :
    ∃ out t, Coro.Runs (Others sampleRequest (fun _ => True))
        (asyncSendRequest tickingEnv (some "replica") (some sampleRequest) silentAnswer)
        idleReplica (.ok (some out)) t ∧
      sampleRequest ∉ idleReplica.state.replica.pendingRequests ∧
      sampleRequest ∉ idleReplica.state.replica.runningRequests ∧
      out.success = true ∧ ¬ Released sampleRequest idleReplica t := by
  have hrun := Coro.runs_atomically (others_refl sampleRequest (fun _ => True))
    (asyncSendRequest tickingEnv (some "replica") (some sampleRequest) silentAnswer) idleReplica
  have hout : ((asyncSendRequest tickingEnv (some "replica") (some sampleRequest)
      silentAnswer).atomically idleReplica).1 =
        .ok (some { success := true, requestLatency := 4, tpot := some 4 }) := by
    decide +kernel
  rw [hout] at hrun
  refine ⟨_, _, hrun, by decide, by decide, rfl, ?_⟩
  intro hreleased
  -- the prefill was never completed, so the request is still pending
  have hleft : sampleRequest ∈ ((asyncSendRequest tickingEnv (some "replica")
      (some sampleRequest) silentAnswer).atomically
        idleReplica).2.state.replica.pendingRequests := by
    decide +kernel
  exact hreleased.1 hleft

/-- An answer with one token, which ends well. -/
def streamedAnswer : HttpOutcome := .responded 200 [.data (.text "a") none, .done] .closed

/-- The request is admitted, its prefill is completed with the token, and `[DONE]` releases the
replica. -/
theorem released_iff_streamed :
    ∃ out t, Coro.Runs (Others sampleRequest (fun store => store.cacheMgr.WellFormed ∧
          100 ≤ store.cacheMgr.cacheEngine.numBlocks))
        (asyncSendRequest tickingEnv (some "replica") (some sampleRequest) streamedAnswer)
        idleReplica (.ok (some out)) t ∧
      out.ttft = 3 ∧ Released sampleRequest idleReplica t := by
  have hrun := Coro.runs_atomically (others_refl sampleRequest (fun store =>
      store.cacheMgr.WellFormed ∧ 100 ≤ store.cacheMgr.cacheEngine.numBlocks))
    (asyncSendRequest tickingEnv (some "replica") (some sampleRequest) streamedAnswer) idleReplica
  have hout : ((asyncSendRequest tickingEnv (some "replica") (some sampleRequest)
      streamedAnswer).atomically idleReplica).1 =
        .ok (some { success := true, requestLatency := 6, ttft := 3, tpot := some 3 }) := by
    decide +kernel
  rw [hout] at hrun
  -- the tokenizer encodes every text, and no save in a pool of 128 blocks raises
  have hencode : ∀ text, ∃ tokenIds, tickingEnv.encode text = .ok tokenIds := fun _ => ⟨_, rfl⟩
  have hsaves := goodSaves_store PrefixKVCacheMgr.encodingRuntime_hash_ne_zero hencode
  have hreleased := (released_iff tickingEnv _ "replica" sampleRequest streamedAnswer (by decide)
    (by decide) hrun).2 hsaves ⟨PrefixKVCacheMgr.init_wellFormed _, by decide⟩
  exact ⟨_, _, hrun, rfl, hreleased.mpr (Or.inr (Or.inr (Or.inr (Or.inr (by decide)))))⟩

end DualMap.Client
