/-
  PassiveDns.Command.Key

  The options of the command line: their long and short names, the environment
  variables that stand in for them, and what they ask for.
-/

namespace PassiveDns.Command

/-- An option of the command line. -/
inductive Key where
  | capture
  | configuration
  | port
  | ratio
  | dedup
  | noEthernet
  | decoderWorkers
  | tcpShards
  | serverName
  | output
  | logLevel
  | logFormat
  | help
  | version
deriving Repr, DecidableEq, Inhabited

/-- What an option does: it has a value, it is on once it is given, or it asks
    for a text about the program. -/
inductive Manner where
  | valued
  | switch
  | notice
deriving Repr, DecidableEq, Inhabited

namespace Key

/-- All options, in the order in which their variables are looked at. -/
def all : List Key :=
  [capture, configuration, port, ratio, dedup, noEthernet, decoderWorkers, tcpShards, serverName,
    output, logLevel, logFormat, help, version]

/-- The name behind two dashes. -/
def long : Key → String
  | capture => "pcap"
  | configuration => "config"
  | port => "port"
  | ratio => "sample-ratio"
  | dedup => "dedup"
  | noEthernet => "no-ethernet"
  | decoderWorkers => "decoder-workers"
  | tcpShards => "tcp-shards"
  | serverName => "server-name"
  | output => "output"
  | logLevel => "log-level"
  | logFormat => "log-format"
  | help => "help"
  | version => "version"

/-- The letter behind one dash. -/
def short? : Key → Option Char
  | capture => some 'r'
  | configuration => some 'c'
  | port => some 'p'
  | output => some 'o'
  | help => some 'h'
  | version => some 'V'
  | _ => none

/-- The environment variable that is looked at where the option is not given. -/
def environmentName? : Key → Option String
  | capture => some "DNSSCOPE_PCAP"
  | configuration => some "DNSSCOPE_CONFIG"
  | port => some "DNSSCOPE_PORT"
  | ratio => some "DNSSCOPE_SAMPLE_RATIO"
  | dedup => some "DNSSCOPE_DEDUP"
  | noEthernet => some "DNSSCOPE_NO_ETHERNET"
  | decoderWorkers => some "DNSSCOPE_DECODER_WORKERS"
  | tcpShards => some "DNSSCOPE_TCP_SHARDS"
  | serverName => some "DNSSCOPE_SERVER_NAME"
  | output => some "DNSSCOPE_OUTPUT"
  | logLevel => some "DNSSCOPE_LOG"
  | logFormat => some "DNSSCOPE_LOG_FORMAT"
  | help | version => none

/-- What an option does. -/
def manner : Key → Manner
  | dedup | noEthernet => .switch
  | help | version => .notice
  | _ => .valued

/-- What an option is for, in the words of the usage text. -/
def purpose : Key → String
  | capture => "capture file to read (pcap or pcapng)"
  | configuration => "configuration file (TOML)"
  | port => "DNS port to match"
  | ratio => "sampling ratio A:B"
  | dedup => "drop packets that were already seen a short while ago"
  | noEthernet => "frames of the capture have no link header"
  | decoderWorkers => "number of decoders"
  | tcpShards => "number of stream assemblers"
  | serverName => "identity recorded in every result"
  | output => "file to append results to, instead of standard output"
  | logLevel => "what is logged"
  | logFormat => "form of the log, text or json"
  | help => "show this text"
  | version => "show the version"

/-- The option with a long name. -/
def ofLong? (name : String) : Option Key := all.find? fun key => key.long = name

/-- The option with a letter. -/
def ofShort? (letter : Char) : Option Key := all.find? fun key => key.short? = some letter

/-- Every option is found under its long name. -/
theorem ofLong?_long (key : Key) : ofLong? key.long = some key := by
  cases key <;> decide

/-- Every option that has a letter is found under it. -/
theorem ofShort?_short (key : Key) (letter : Char) (h : key.short? = some letter) :
    ofShort? letter = some key := by
  cases key <;> simp [short?] at h <;> subst h <;> decide

/-- The line of an option in the usage text. -/
def usageLine (key : Key) : String :=
  let letter := match key.short? with
    | some letter => "-" ++ letter.toString ++ ", "
    | none => "    "
  "  " ++ letter ++ "--" ++ key.long ++ (if key.manner = .valued then " <value>" else "") ++
    "\n        " ++ key.purpose

end Key

end PassiveDns.Command
