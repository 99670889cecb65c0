/-
  PassiveDns.Metrics

  Counters and gauges of a run, and their text exposition: families by name,
  and inside a family the samples by their label values.
-/
import PassiveDns.Address
import PassiveDns.Table
import PassiveDns.Text.Decimal

namespace PassiveDns

/-- What is counted. -/
inductive Series where
  | packets (stage : String)
  | rejected (reason : String)
  | decodeErrors (path : String)
  | fragments (version : IpVersion) (outcome : String)
  | streams (version : IpVersion) (event : String)
  | parseErrors
  | results
  | sinkResults (sink : String) (ok : Bool)
  | source (kind : String)
deriving Repr, DecidableEq, Inhabited

/-- A group of series that share a name. -/
inductive Family where
  | decodeErrors
  | parseErrors
  | fragments
  | rejected
  | packets
  | results
  | sinkResults
  | source
  | streams
deriving Repr, DecidableEq, Inhabited

namespace Family

/-- All families by their names. -/
def all : List Family :=
  [decodeErrors, parseErrors, fragments, rejected, packets, results, sinkResults, source,
    streams]

/-- The name of a family behind the common first part. -/
def label : Family → String
  | decodeErrors => "decode_errors_total"
  | parseErrors => "dns_parse_errors_total"
  | fragments => "fragments_total"
  | rejected => "ingress_rejected_total"
  | packets => "packets_total"
  | results => "results_total"
  | sinkResults => "sink_results_total"
  | source => "source_packets"
  | streams => "tcp_streams_total"

/-- The whole name of a family. -/
def name (family : Family) : String := "dnsscope_" ++ family.label

/-- What a family counts. -/
def help : Family → String
  | decodeErrors => "Packets dropped on malformed link, IP or transport headers"
  | parseErrors => "Payloads dropped because they did not parse as DNS"
  | fragments => "IP fragments by reassembly outcome"
  | rejected => "Packets rejected before decoding"
  | packets => "Packets observed per pipeline stage"
  | results => "DNS results built and dispatched"
  | sinkResults => "DNS results written per sink"
  | source => "Packet counters reported by the capture source"
  | streams => "TCP stream assembly events"

/-- Whether the samples of a family are set rather than counted up. -/
def isGauge : Family → Bool
  | source => true
  | _ => false

end Family

namespace Series

/-- The family of a series. -/
def family : Series → Family
  | packets _ => .packets
  | rejected _ => .rejected
  | decodeErrors _ => .decodeErrors
  | fragments _ _ => .fragments
  | streams _ _ => .streams
  | parseErrors => .parseErrors
  | results => .results
  | sinkResults _ _ => .sinkResults
  | source _ => .source

/-- The labels of a series, by their names. -/
def labels : Series → List (String × String)
  | packets stage => [("stage", stage)]
  | rejected reason => [("reason", reason)]
  | decodeErrors path => [("path", path)]
  | fragments version outcome => [("ip_version", version.label), ("outcome", outcome)]
  | streams version event => [("event", event), ("ip_version", version.label)]
  | parseErrors => []
  | results => []
  | sinkResults sink ok => [("sink", sink), ("status", if ok then "ok" else "error")]
  | source kind => [("kind", kind)]

end Series

/-- The value of each series that was touched. -/
structure Metrics where
  values : Table Series Int

namespace Metrics

/-- The two counters without labels are there from the start. -/
def empty : Metrics :=
  ⟨(Table.empty.set .parseErrors 0).set .results 0⟩

instance : Inhabited Metrics := ⟨empty⟩

/-- The value of a series, zero if it was never touched. -/
def value (metrics : Metrics) (series : Series) : Int :=
  (metrics.values.get? series).getD 0

/-- Counts a series up. Counters have 64 bits. -/
def add (metrics : Metrics) (series : Series) (count : Nat) : Metrics :=
  ⟨metrics.values.set series ((metrics.value series + count) % 18446744073709551616)⟩

/-- Counts a series up by one. -/
def bump (metrics : Metrics) (series : Series) : Metrics := metrics.add series 1

/-- Counts several series up. -/
def addAll (metrics : Metrics) (tally : List (Series × Nat)) : Metrics :=
  tally.foldl (fun metrics entry => metrics.add entry.1 entry.2) metrics

/-- Sets a gauge, which has 64 bits and a sign. -/
def put (metrics : Metrics) (series : Series) (value : Nat) : Metrics :=
  ⟨metrics.values.set series (Int.bmod value 18446744073709551616)⟩

/-- Sets the gauges for what the source received and what it lost. -/
def putSource (metrics : Metrics) (received dropped : Nat) : Metrics :=
  (metrics.put (.source "received") received).put (.source "dropped") dropped

/-- The series that were touched, with their values. -/
def samples (metrics : Metrics) : List (Series × Int) := metrics.values.entries

/-! ## Summary -/

/-- The headline counters. -/
structure Summary where
  captured : Int
  ratioSkipped : Int
  duplicates : Int
  decodeErrors : Int
  parseErrors : Int
  results : Int
  received : Int
  dropped : Int
deriving Repr, DecidableEq, Inhabited

/-- Looks up a series, which touches it. -/
def read (metrics : Metrics) (series : Series) : Int × Metrics :=
  (metrics.value series, ⟨metrics.values.set series (metrics.value series)⟩)

/-- The headline counters; looking them up touches them. -/
def summary (metrics : Metrics) : Summary × Metrics :=
  let (captured, metrics) := metrics.read (.packets "captured")
  let (ratioSkipped, metrics) := metrics.read (.rejected "ratio")
  let (duplicates, metrics) := metrics.read (.rejected "duplicate")
  let (decodeErrors, metrics) := metrics.read (.decodeErrors "raw")
  let (received, metrics) := metrics.read (.source "received")
  let (dropped, metrics) := metrics.read (.source "dropped")
  ({ captured, ratioSkipped, duplicates, decodeErrors,
     parseErrors := metrics.value .parseErrors
     results := metrics.value .results
     received, dropped }, metrics)

/-! ## Exposition -/

/-- One character of a label's value: quotes and backslashes are marked by a
    backslash, and a line end becomes a backslash and `n`. -/
def escapeChar (c : Char) : List Char :=
  if c = '\\' then ['\\', '\\']
  else if c = '"' then ['\\', '"']
  else if c = '\n' then ['\\', 'n']
  else [c]

/-- A label with its value. -/
def labelText (label : String × String) : String :=
  label.1 ++ "=\"" ++ String.ofList (label.2.toList.flatMap escapeChar) ++ "\""

/-- The line of one sample. -/
def sampleText (sample : Series × Int) : String :=
  let labels := sample.1.labels
  let braces := if labels.isEmpty then "" else
    "\x7b" ++ ",".intercalate (labels.map labelText) ++ "\x7d"
  sample.1.family.name ++ braces ++ " " ++ Text.Decimal.shortestInt sample.2 ++ "\n"

/-- Whether the first list of label values comes before the second, or they are
    equal. -/
def labelsLe : List (String × String) → List (String × String) → Bool
  | [], _ => true
  | _ :: _, [] => false
  | a :: as, b :: bs => if a.2 = b.2 then labelsLe as bs else a.2 < b.2

/-- The samples of a family in their order. -/
def samplesOf (metrics : Metrics) (family : Family) : List (Series × Int) :=
  (metrics.samples.filter fun sample => sample.1.family = family).mergeSort
    fun a b => labelsLe a.1.labels b.1.labels

/-- The text of a family, nothing if it has no samples. -/
def familyText (metrics : Metrics) (family : Family) : String :=
  match metrics.samplesOf family with
  | [] => ""
  | samples =>
    "# HELP " ++ family.name ++ " " ++ family.help ++ "\n" ++
      "# TYPE " ++ family.name ++ " " ++ (if family.isGauge then "gauge" else "counter") ++
      "\n" ++ String.join (samples.map sampleText)

/-- The text of all families. -/
def text (metrics : Metrics) : String :=
  String.join (Family.all.map metrics.familyText)

end Metrics

end PassiveDns
