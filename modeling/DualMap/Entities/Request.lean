import Mathlib.Data.Rat.Defs

/-!
# Requests

A request as the generator creates it. Python compares requests by identity; the generator
numbers them, so two requests are the same object exactly when these fields agree. What
the scheduler and the replicas write into a request while it is on its way is kept apart,
in `RequestAttrs`.
-/

namespace DualMap

/-- `Request`, with the fields that never change after its creation. -/
structure Request where
  id : ℕ
  hashSessionId : String
  inputIds : List ℕ
  numPrefillTokens : ℤ
  outputLen : ℕ
  arrivedAt : ℚ
  deriving DecidableEq

/-- The fields of `Request` that are written after its creation. -/
structure RequestAttrs where
  actualNumPrefillTokens : ℤ
  primaryReplica : ℤ := -1
  secondReplica : ℤ := -1
  rountingCacheHitMax : ℤ := -1
  isDhCacheAffinity : ℤ := 0
  isDhLeastLoaded : ℤ := 0
  isDhCacheAffinityLeastLoaded : ℤ := 0
  deriving DecidableEq

end DualMap
