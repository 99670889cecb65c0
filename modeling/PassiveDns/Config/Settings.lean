/-
  PassiveDns.Config.Settings

  The settings of a run: defaults, reading them from a TOML document, and the
  conditions that they must meet. Keys that are no settings are ignored.
-/
import PassiveDns.Config.Ratio
import PassiveDns.FileFault
import PassiveDns.Text.Json
import PassiveDns.Text.Utf8
import PassiveDns.Toml.Parser

namespace PassiveDns

/-- The settings of a run. Every field has a default, so that a document only
    names what it changes. -/
structure Settings where
  /-- The DNS port, matched on either side. -/
  port : Nat := 53
  ratio : Config.Ratio := .all
  dedup : Bool := false
  dedupCleanupSecs : Nat := 60
  dedupMaxEntries : Nat := 1000000
  /-- Frames have no link header. -/
  noEthernet : Bool := false
  /-- How often idle state is looked for, and how old it must be. -/
  gcIntervalSecs : Nat := 10
  decoderWorkers : Nat := 2
  tcpShards : Nat := 1
  packetQueue : Nat := 1000
  tcpQueue : Nat := 10000
  tcpReturnQueue : Nat := 10000
  defragQueue : Nat := 10000
  resultQueue : Nat := 100000
  sinkQueue : Nat := 10000
  /-- The bits of a version 4 address that are kept. -/
  mask4 : Nat := 32
  /-- The bits of a version 6 address that are kept. -/
  mask6 : Nat := 128
  serverName : String := "default"
  statsIntervalSecs : Nat := 10
  drainTimeoutSecs : Nat := 5
  /-- The segments of a stream that may wait for a gap to close. -/
  maxBufferedSegments : Nat := 256
  vxlanPort : Nat := 4789
deriving Repr, DecidableEq, Inhabited

namespace Config

/-- What is wrong with a setting. -/
inductive SettingFault where
  | zero
  | tooLong (value limit : Nat)
deriving Repr, DecidableEq, Inhabited

/-- What is reported for a setting. -/
def SettingFault.message : SettingFault → String
  | zero => "must be greater than zero"
  | tooLong value limit => toString value ++ " is longer than " ++ toString limit

/-- Why there are no settings. A document that is not TOML, or has a setting of
    the wrong type, is not described further, but a ratio in it is. -/
inductive Error where
  | file (fault : FileFault)
  | document (cause : Option RatioError)
  | ratio (error : RatioError)
  | setting (name : String) (fault : SettingFault)
deriving Repr, DecidableEq, Inhabited

/-- What is reported for each cause. -/
def Error.message : Error → String
  | file fault => "failed to read config: " ++ fault.message
  | document none => ""
  | document (some error) => error.message
  | ratio error => error.message
  | setting name fault => "invalid " ++ name ++ ": " ++ fault.message

end Config

namespace Settings

open Config (Error Ratio)
open Text (Json)

/-- The document of settings: every key with its value. -/
def toJson (settings : Settings) : Json :=
  .obj [("port", .num settings.port),
    ("sample_ratio", .str settings.ratio.text),
    ("dedup", .bool settings.dedup),
    ("dedup_cleanup_interval_secs", .num settings.dedupCleanupSecs),
    ("dedup_max_entries", .num settings.dedupMaxEntries),
    ("no_ethernet", .bool settings.noEthernet),
    ("gc_interval_secs", .num settings.gcIntervalSecs),
    ("decoder_workers", .num settings.decoderWorkers),
    ("tcp_shards", .num settings.tcpShards),
    ("packet_channel_size", .num settings.packetQueue),
    ("tcp_channel_size", .num settings.tcpQueue),
    ("tcp_return_channel_size", .num settings.tcpReturnQueue),
    ("defrag_channel_size", .num settings.defragQueue),
    ("result_channel_size", .num settings.resultQueue),
    ("sink_channel_size", .num settings.sinkQueue),
    ("mask_size4", .num settings.mask4),
    ("mask_size6", .num settings.mask6),
    ("server_name", .str settings.serverName),
    ("stats_interval_secs", .num settings.statsIntervalSecs),
    ("drain_timeout_secs", .num settings.drainTimeoutSecs),
    ("tcp_max_buffered_segments", .num settings.maxBufferedSegments),
    ("vxlan_port", .num settings.vxlanPort)]

/-! ## Reading -/

/-- A number of a document that is below a bound. -/
def number (bound : Nat) : Toml.Value → Except Error Nat
  | .integer n => if 0 ≤ n ∧ n < bound then .ok n.toNat else .error (.document none)
  | _ => .error (.document none)

/-- A truth value of a document. -/
def boolean : Toml.Value → Except Error Bool
  | .boolean b => .ok b
  | _ => .error (.document none)

/-- A text of a document. -/
def text : Toml.Value → Except Error String
  | .text s => .ok s
  | _ => .error (.document none)

/-- A ratio of a document. -/
def ratioOf (value : Toml.Value) : Except Error Ratio := do
  match Ratio.parse (← text value) with
  | .ok ratio => .ok ratio
  | .error cause => .error (.document (some cause))

/-- The settings with one entry of a document. -/
def withEntry (settings : Settings) (key : String) (value : Toml.Value) :
    Except Error Settings := do
  let byte := number 256 value
  let port := number 65536 value
  let count := number 18446744073709551616 value
  match key with
  | "port" => return { settings with port := ← port }
  | "sample_ratio" => return { settings with ratio := ← ratioOf value }
  | "dedup" => return { settings with dedup := ← boolean value }
  | "dedup_cleanup_interval_secs" => return { settings with dedupCleanupSecs := ← count }
  | "dedup_max_entries" => return { settings with dedupMaxEntries := ← count }
  | "no_ethernet" => return { settings with noEthernet := ← boolean value }
  | "gc_interval_secs" => return { settings with gcIntervalSecs := ← count }
  | "decoder_workers" => return { settings with decoderWorkers := ← count }
  | "tcp_shards" => return { settings with tcpShards := ← count }
  | "packet_channel_size" => return { settings with packetQueue := ← count }
  | "tcp_channel_size" => return { settings with tcpQueue := ← count }
  | "tcp_return_channel_size" => return { settings with tcpReturnQueue := ← count }
  | "defrag_channel_size" => return { settings with defragQueue := ← count }
  | "result_channel_size" => return { settings with resultQueue := ← count }
  | "sink_channel_size" => return { settings with sinkQueue := ← count }
  | "mask_size4" => return { settings with mask4 := ← byte }
  | "mask_size6" => return { settings with mask6 := ← byte }
  | "server_name" => return { settings with serverName := ← text value }
  | "stats_interval_secs" => return { settings with statsIntervalSecs := ← count }
  | "drain_timeout_secs" => return { settings with drainTimeoutSecs := ← count }
  | "tcp_max_buffered_segments" => return { settings with maxBufferedSegments := ← count }
  | "vxlan_port" => return { settings with vxlanPort := ← port }
  | _ => return settings

/-! ## Conditions -/

/-- The settings that must not be zero, with their names. -/
def positive (settings : Settings) : List (String × Nat) :=
  [("packet_channel_size", settings.packetQueue),
    ("tcp_channel_size", settings.tcpQueue),
    ("tcp_return_channel_size", settings.tcpReturnQueue),
    ("defrag_channel_size", settings.defragQueue),
    ("result_channel_size", settings.resultQueue),
    ("sink_channel_size", settings.sinkQueue),
    ("decoder_workers", settings.decoderWorkers),
    ("tcp_shards", settings.tcpShards),
    ("tcp_max_buffered_segments", settings.maxBufferedSegments)]

/-- The first condition that is not met: no queue, worker count or bound is
    zero, the ratio is one, the prefixes fit the addresses, and the intervals in
    use are not zero. -/
def validate (settings : Settings) : Except Error Unit :=
  match settings.positive.find? fun entry => entry.2 = 0 with
  | some entry => .error (.setting entry.1 .zero)
  | none =>
    if settings.ratio.outOf = 0 ∨ settings.ratio.outOf < settings.ratio.accept then
      .error (.ratio ⟨settings.ratio.text, .acceptTooLarge⟩)
    else if 32 < settings.mask4 then
      .error (.setting "mask_size4" (.tooLong settings.mask4 32))
    else if 128 < settings.mask6 then
      .error (.setting "mask_size6" (.tooLong settings.mask6 128))
    else if settings.gcIntervalSecs = 0 then .error (.setting "gc_interval_secs" .zero)
    else if settings.dedup ∧ settings.dedupCleanupSecs = 0 then
      .error (.setting "dedup_cleanup_interval_secs" .zero)
    else .ok ()

/-- The settings that a document makes. Its entries are taken in order, and the
    first that does not fit is reported. -/
def ofToml (document : String) : Except Error Settings :=
  match Toml.parse? document with
  | none => .error (.document none)
  | some entries => do
    let settings ← entries.foldlM (fun settings entry => settings.withEntry entry.1 entry.2)
      ({} : Settings)
    settings.validate
    pure settings

/-- The settings in a file with these contents, or none if there is no such
    file. -/
def ofFile (contents : Option Octets) : Except Error Settings :=
  match contents with
  | none => .error (.file .notFound)
  | some octets =>
    match Text.Utf8.decode? octets with
    | none => .error (.file .notText)
    | some text => ofToml text

end Settings

end PassiveDns
