import DualMap.Foundation.Csv
import DualMap.Metrics.MetricsStore

/-!
# Loading the Metrics

`load_cache` reads the file of the metrics back, with a `csv.DictReader` over its lines. The
first record has the names of the columns. What is too much in a record goes under the key
`None`, what is missing gets the value `None`.

The translation of line ends when the file is read makes no difference to `splitlines`.
-/

namespace DualMap.Metrics

/-- `csv.field_size_limit()`. -/
def fieldSizeLimit : ℕ := 131072

end DualMap.Metrics
