import DualMap.Foundation.Coroutine
import DualMap.Foundation.OrderedDict
import DualMap.Foundation.PyEffect

/-!
# The Metrics Store

`MetricsStore` keeps one row of metrics per request and writes all rows to a CSV file when
some of them changed since the last time (`dirty`). The values in the rows are of any type
`α`; what `csv` writes for a value is a parameter.

`insert_metrics` and `update_metrics` hold the lock of the store, but await nothing while they
do, so they are uninterrupted steps. `save_cache` takes no lock. It suspends while the file is
opened, written and closed, and the file changes at some moment of the first two suspensions;
one suspension before each change leaves every order with the steps of other tasks possible.
-/

namespace DualMap.Metrics

/-! ## CSV -/

/-- The columns of the file. -/
def fieldnames : List String :=
  ["request_id", "dataset_type", "request_start_time", "request_end_time", "native_session_id",
    "round_id", "replica_id", "time_to_first_token", "request_latency", "TPS(tokens/s)",
    "tpot(ms)", "num_request_pending", "input_len", "output_len", "pd_ratio",
    "actual_num_prefill_tokens", "req_arrived_at", "time_interval", "rounting_cache_hit_max",
    "is_dh_cache_affinity", "is_dh_least_loaded", "is_dh_cache_affinity_least_loaded"]

/-- A field as `csv` writes it with `lineterminator='\n'`: in quotes, with its quotes doubled,
when it holds a delimiter, a quote or this end of line. -/
def quoteField (field : String) : String :=
  if field.toList.any (fun c => c ∈ ",\"\n".toList) then
    "\"" ++ String.ofList (field.toList.flatMap
      (fun c => if c ∈ "\"".toList then [c, c] else [c])) ++ "\""
  else field

/-- One line of the file. -/
def csvLine (fields : List String) : String :=
  String.intercalate "," (fields.map quoteField) ++ "\n"

section Rows

variable {α : Type} (text : α → String)

/-- `DictWriter.writerow`: a row with a key that is no column raises a `ValueError`, a missing
column is left empty. -/
def writerow (row : OrderedDict String α) : Except PyException String :=
  if ∃ key ∈ row.keys, key ∉ fieldnames then .error .valueError
  else .ok (csvLine (fieldnames.map (fun key => ((row.get? key).map text).getD "")))

/-- What `save_cache` puts together before it opens the file. -/
def csvContent (dataCache : OrderedDict α (OrderedDict String α)) :
    Except PyException String := do
  let lines ← dataCache.values.mapM (writerow text)
  return csvLine fieldnames ++ String.join lines

end Rows

/-! ## The store -/

/-- `MetricsStore`, and the content of its file, if there is one. -/
structure MetricsStore (α : Type) where
  dataCache : OrderedDict α (OrderedDict String α)
  dirty : Bool
  csvFile : Option String

namespace MetricsStore

variable {α : Type} [DecidableEq α] (text : α → String)

/-- `MetricsStore.__init__`. A file of an earlier run may be there. -/
def init (csvFile : Option String) : MetricsStore α where
  dataCache := .empty
  dirty := false
  csvFile := csvFile

/-- `insert_metrics`. A row without a request id is a `KeyError` before anything changes. -/
def insertRow (data : OrderedDict String α) (store : MetricsStore α) : MetricsStore α :=
  match data.get? "request_id" with
  | none => store
  | some requestId =>
    { store with dataCache := store.dataCache.set requestId data, dirty := true }

/-- `update_metrics`. Updates of an unknown request change nothing. -/
def updateRow (requestId : α) (updates : OrderedDict String α) (store : MetricsStore α) :
    MetricsStore α :=
  match store.dataCache.get? requestId with
  | none => store
  | some row =>
    -- `row.update(updates)` on the row that is in the cache
    let row := updates.entries.foldl (fun row (key, value) => row.set key value) row
    { store with dataCache := store.dataCache.set requestId row, dirty := true }

/-! ### Coroutines, without locals of their own -/

/-- `insert_metrics`. -/
def insertMetrics (data : OrderedDict String α) : Coro (Unit × MetricsStore α) Unit :=
  Coro.shared (fun store => ((), store.insertRow data))

/-- `update_metrics`. -/
def updateMetrics (requestId : α) (updates : OrderedDict String α) :
    Coro (Unit × MetricsStore α) Unit :=
  Coro.shared (fun store => ((), store.updateRow requestId updates))

/-- The end of `save_cache`, after the file was closed. -/
def clearDirty : Coro (Unit × MetricsStore α) Unit :=
  Coro.shared (fun store => ((), { store with dirty := false }))

/-- `save_cache` from the moment the file is written: the content as it was put together
before the file was opened. -/
def writeFile (content : String) : Coro (Unit × MetricsStore α) Unit := do
  Coro.shared (fun store => ((), { store with csvFile := some content }))
  Coro.suspend
  clearDirty

/-- `save_cache` from the moment the file is opened: mode `w` empties it. -/
def openFile (content : String) : Coro (Unit × MetricsStore α) Unit := do
  Coro.shared (fun store => ((), { store with csvFile := some "" }))
  Coro.suspend
  writeFile content

/-- `save_cache`. When the rows cannot be written the exception is caught, and the flag
stays. -/
def saveCache : Coro (Unit × MetricsStore α) Unit := do
  let store ← Coro.shared (fun store => (store, store))
  if store.dirty then
    match csvContent text store.dataCache with
    | .ok content => do
      Coro.suspend
      openFile content
    | .error _ => return ()
  else return ()

/-- `sync_cache`. -/
def syncCache : Coro (Unit × MetricsStore α) Unit := saveCache text

end MetricsStore

end DualMap.Metrics
