/-
  PassiveDns.Capture.Error

  Why a capture cannot be read, and what is reported.
-/
import PassiveDns.FileFault
import PassiveDns.Octets

namespace PassiveDns.Capture

/-- The parts of a capture file in which its format is violated: the header of
    the classic format, its records, the first section header of the block
    format, and its blocks. -/
inductive Section where
  | classicHeader
  | classic
  | blocksHeader
  | blocks
deriving Repr, DecidableEq, Inhabited

/-- The name of a part. -/
def Section.label : Section → String
  | classicHeader => "pcap header"
  | classic => "pcap"
  | blocksHeader => "pcapng header"
  | blocks => "pcapng"

/-- How a format is violated. -/
inductive Fault where
  | incomplete (missing : Nat)
  | unexpectedEnd
  | bufferTooSmall
  | notRecognized
  | refused (input : Octets)
deriving Repr, DecidableEq, Inhabited

/-- What is reported for a violation. -/
def Fault.message : Fault → String
  | incomplete missing => "Incomplete read: " ++ toString missing
  | unexpectedEnd => "Unexpected end of file"
  | bufferTooSmall => "Buffer is too small"
  | notRecognized => "Header not recognized as PCAP or PCAPNG"
  | refused input =>
    "Internal parser error Verify, input [" ++
      ", ".intercalate (input.map fun b => toString b.toNat) ++ "]"

/-- Why a capture cannot be read. -/
inductive Error where
  | file (fault : FileFault)
  | unknownMagic (magic : Nat)
  | violated (part : Section) (fault : Fault)
  | malformed (reason : String)
  | unsupportedLink (number : Int)
deriving Repr, DecidableEq, Inhabited

/-- The eight hexadecimal digits of a 32-bit number. -/
def hex8 (n : Nat) : String :=
  let digits := Nat.toDigits 16 n
  String.ofList (List.replicate (8 - digits.length) '0' ++ digits)

/-- What is reported for each cause. -/
def Error.message : Error → String
  | file fault => "capture I/O error: " ++ fault.message
  | unknownMagic magic => "bad capture format: unknown capture magic 0x" ++ hex8 magic
  | violated part fault => "bad capture format: " ++ part.label ++ ": " ++ fault.message
  | malformed reason => "bad capture format: " ++ reason
  | unsupportedLink number => "unsupported link type " ++ toString number

end PassiveDns.Capture
