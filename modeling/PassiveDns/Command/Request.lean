/-
  PassiveDns.Command.Request

  What a command line asks for. Arguments are read from left to right, and the
  first that is wrong, or that asks for a text about the program, decides. For an
  option that is not given its environment variable is read in the same way.
-/
import PassiveDns.Command.Key
import PassiveDns.Config.Settings

namespace PassiveDns.Command

/-- The form of the log. -/
inductive LogFormat where
  | text
  | json
deriving Repr, DecidableEq, Inhabited

/-- What is wrong with a command line. -/
inductive UsageError where
  | unknownOption (argument : String)
  | unexpected (argument : String)
  | repeated (key : Key)
  | missingValue (key : Key)
  | needlessValue (key : Key)
  | invalidValue (key : Key) (value : String)
  | missing (key : Key)
deriving Repr, DecidableEq, Inhabited

/-- What is reported for each cause. -/
def UsageError.message : UsageError → String
  | unknownOption argument => "unknown option " ++ argument
  | unexpected argument => "unexpected argument " ++ argument
  | repeated key => "--" ++ key.long ++ " is given more than once"
  | missingValue key => "--" ++ key.long ++ " needs a value"
  | needlessValue key => "--" ++ key.long ++ " takes no value"
  | invalidValue key value => "invalid value for --" ++ key.long ++ ": " ++ value
  | missing key => "--" ++ key.long ++ " is required"

/-- Why reading arguments ends early: something is wrong, or a text about the
    program is asked for. -/
inductive Halt where
  | fault (error : UsageError)
  | notice (key : Key)
deriving Repr, DecidableEq, Inhabited

/-! ## Values -/

/-- What was chosen, option by option. -/
structure Choices where
  capture : Option String := none
  configuration : Option String := none
  port : Option Nat := none
  ratio : Option Config.Ratio := none
  dedup : Option Bool := none
  noEthernet : Option Bool := none
  decoderWorkers : Option Nat := none
  tcpShards : Option Nat := none
  serverName : Option String := none
  output : Option String := none
  logLevel : Option String := none
  logFormat : Option LogFormat := none
deriving Repr, DecidableEq, Inhabited

/-- A path, which is not empty. -/
def path? (text : String) : Option String := if text.isEmpty then none else some text

/-- A 16-bit number. It may have a sign, but only zero may be negative. -/
def portNumber? (text : String) : Option Nat :=
  match text.toList with
  | '-' :: '+' :: _ => none
  | '-' :: digits => Config.unsigned? 1 digits
  | digits => Config.unsigned? 65536 digits

/-- A 64-bit number, which may have a plus sign. -/
def count? (text : String) : Option Nat := Config.unsigned? 18446744073709551616 text.toList

/-- The state of a switch. -/
def switch? : String → Option Bool
  | "true" => some true
  | "false" => some false
  | _ => none

/-- The form of the log with a name. -/
def logFormat? : String → Option LogFormat
  | "text" => some .text
  | "json" => some .json
  | _ => none

namespace Choices

/-- Whether a choice was made for an option. -/
def isMade (choices : Choices) : Key → Bool
  | .capture => choices.capture.isSome
  | .configuration => choices.configuration.isSome
  | .port => choices.port.isSome
  | .ratio => choices.ratio.isSome
  | .dedup => choices.dedup.isSome
  | .noEthernet => choices.noEthernet.isSome
  | .decoderWorkers => choices.decoderWorkers.isSome
  | .tcpShards => choices.tcpShards.isSome
  | .serverName => choices.serverName.isSome
  | .output => choices.output.isSome
  | .logLevel => choices.logLevel.isSome
  | .logFormat => choices.logFormat.isSome
  | .help | .version => false

/-- The choices with one more, if the text is a value of its option. -/
def with? (choices : Choices) (key : Key) (text : String) : Option Choices :=
  match key with
  | .capture => (path? text).map fun path => { choices with capture := some path }
  | .configuration => (path? text).map fun path => { choices with configuration := some path }
  | .port => (portNumber? text).map fun port => { choices with port := some port }
  | .ratio =>
    (Config.Ratio.parse text).toOption.map fun ratio => { choices with ratio := some ratio }
  | .dedup => (switch? text).map fun on => { choices with dedup := some on }
  | .noEthernet => (switch? text).map fun on => { choices with noEthernet := some on }
  | .decoderWorkers => (count? text).map fun count => { choices with decoderWorkers := some count }
  | .tcpShards => (count? text).map fun count => { choices with tcpShards := some count }
  | .serverName => some { choices with serverName := some text }
  | .output => (path? text).map fun path => { choices with output := some path }
  | .logLevel => some { choices with logLevel := some text }
  | .logFormat => (logFormat? text).map fun format => { choices with logFormat := some format }
  | .help | .version => none

/-- Makes a choice, which can be made once. -/
def choose (choices : Choices) (key : Key) (text : String) : Except Halt Choices :=
  if choices.isMade key then .error (.fault (.repeated key))
  else
    match choices.with? key text with
    | some after => .ok after
    | none => .error (.fault (.invalidValue key text))

/-! ## Arguments -/

end Choices

/-- One argument by its form: an option with a long name or a letter, and maybe
    the value attached to it, the mark behind which no options follow, or
    something else. -/
inductive Argument where
  | long (name : String) (attached : Option String)
  | short (letter : Char) (attached : Option String)
  | endOfOptions
  | plain
deriving Repr, DecidableEq, Inhabited

namespace Argument

/-- The form of an argument. A value is attached to a long name with an equals
    sign, and to a letter with or without one. -/
def ofText (text : String) : Argument :=
  match text.toList with
  | ['-', '-'] => .endOfOptions
  | '-' :: '-' :: rest =>
    let name := rest.takeWhile (· ≠ '=')
    let attached := match rest.dropWhile (· ≠ '=') with
      | [] => none
      | _ :: value => some (String.ofList value)
    .long (String.ofList name) attached
  | ['-'] => .plain
  | ['-', letter] => .short letter none
  | '-' :: letter :: '=' :: value => .short letter (some (String.ofList value))
  | '-' :: letter :: value => .short letter (some (String.ofList value))
  | _ => .plain

/-- The option that an argument names. -/
def key? : Argument → Option Key
  | long name _ => Key.ofLong? name
  | short letter _ => Key.ofShort? letter
  | endOfOptions | plain => none

/-- The value attached to an option. -/
def attached? : Argument → Option String
  | long _ attached | short _ attached => attached
  | endOfOptions | plain => none

/-- Whether a value may be attached to an option that has none. Letters may be
    written together, so behind one there may be more. -/
def allowsMore : Argument → Bool
  | short _ _ => true
  | _ => false

end Argument

namespace Choices

/-- Makes the choices that arguments say. -/
def read (choices : Choices) : List String → Except Halt Choices
  | [] => .ok choices
  | text :: rest =>
    match Argument.ofText text with
    | .plain => .error (.fault (.unexpected text))
    | .endOfOptions =>
      match rest with
      | [] => .ok choices
      | next :: _ => .error (.fault (.unexpected next))
    | argument =>
      match argument.key? with
      | none => .error (.fault (.unknownOption text))
      | some key =>
        match key.manner, argument.attached?, rest with
        | .notice, some _, _ =>
          if argument.allowsMore then .error (.notice key)
          else .error (.fault (.needlessValue key))
        | .notice, none, _ => .error (.notice key)
        | .switch, some _, _ => .error (.fault (.needlessValue key))
        | .switch, none, rest => do (← choices.choose key "true").read rest
        | .valued, some value, rest => do (← choices.choose key value).read rest
        | .valued, none, value :: rest =>
          if Argument.ofText value = .plain then do (← choices.choose key value).read rest
          else .error (.fault (.missingValue key))
        | .valued, none, [] => .error (.fault (.missingValue key))

/-- Makes the choice that an environment variable says, if none was made. -/
def readVariable (lookUp : String → Option String) (choices : Choices) (key : Key) :
    Except Halt Choices :=
  match key.environmentName?.bind lookUp with
  | none => .ok choices
  | some value => if choices.isMade key then .ok choices else choices.choose key value

/-- The settings in which what was chosen takes the place of what is there. A
    switch can only turn something on. -/
def override (choices : Choices) (settings : Settings) : Settings :=
  { settings with
    port := choices.port.getD settings.port
    ratio := choices.ratio.getD settings.ratio
    dedup := settings.dedup || choices.dedup.getD false
    noEthernet := settings.noEthernet || choices.noEthernet.getD false
    decoderWorkers := choices.decoderWorkers.getD settings.decoderWorkers
    tcpShards := choices.tcpShards.getD settings.tcpShards
    serverName := choices.serverName.getD settings.serverName }

end Choices

/-! ## Requests -/

/-- What a command line asks for. -/
inductive Request where
  | help
  | version
  | run (capture : String) (choices : Choices)
deriving Repr, DecidableEq, Inhabited

namespace Request

/-- The choices that arguments and environment variables make together. -/
def choices (lookUp : String → Option String) (arguments : List String) :
    Except Halt Choices := do
  Key.all.foldlM (Choices.readVariable lookUp) (← ({} : Choices).read arguments)

/-- What a command line asks for. A run needs a capture. -/
def parse (lookUp : String → Option String) (arguments : List String) :
    Except UsageError Request :=
  match choices lookUp arguments with
  | .error (.fault error) => .error error
  | .error (.notice .version) => .ok .version
  | .error (.notice _) => .ok .help
  | .ok choices =>
    match choices.capture with
    | some path => .ok (.run path choices)
    | none => .error (.missing .capture)

end Request

end PassiveDns.Command
