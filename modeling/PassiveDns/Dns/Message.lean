/-
  PassiveDns.Dns.Message

  DNS messages: header, questions and three sections of records. Reading takes
  as many entries of each section as the header announces; writing announces as
  many as there are.
-/
import PassiveDns.Dns.Record

namespace PassiveDns.Dns

open Text (Json)

/-! ## Header -/

/-- The fixed part of a message. -/
structure Header where
  id : UInt16
  recursionDesired : Bool
  truncated : Bool
  authoritative : Bool
  opcode : UInt8
  isResponse : Bool
  code : ResponseCode
  checkingDisabled : Bool
  authenticData : Bool
  reserved : Bool
  recursionAvailable : Bool
  questionCount : UInt16
  answerCount : UInt16
  authorityCount : UInt16
  additionalCount : UInt16
deriving Repr, DecidableEq, Inhabited

namespace Header

/-- The line that summarises a header. -/
def summary (header : Header) : String :=
  "id=" ++ toString header.id.toNat ++
    " qr=" ++ (if header.isResponse then "true" else "false") ++
    " opcode=" ++ toString header.opcode.toNat ++
    " rcode=" ++ header.code.label ++
    " qd=" ++ toString header.questionCount.toNat ++
    " an=" ++ toString header.answerCount.toNat ++
    " ns=" ++ toString header.authorityCount.toNat ++
    " ar=" ++ toString header.additionalCount.toNat

/-- The document of a header. -/
def toJson (header : Header) : Json :=
  .obj [("id", .num header.id.toNat),
    ("recursion_desired", .bool header.recursionDesired),
    ("truncated_message", .bool header.truncated),
    ("authoritative_answer", .bool header.authoritative),
    ("opcode", .num header.opcode.toNat),
    ("response", .bool header.isResponse),
    ("rescode", header.code.toJson),
    ("checking_disabled", .bool header.checkingDisabled),
    ("authed_data", .bool header.authenticData),
    ("z", .bool header.reserved),
    ("recursion_available", .bool header.recursionAvailable),
    ("questions", .num header.questionCount.toNat),
    ("answers", .num header.answerCount.toNat),
    ("authoritative_entries", .num header.authorityCount.toNat),
    ("resource_entries", .num header.additionalCount.toNat)]

end Header

/-- What a bit with a value adds to a number. -/
def bitValue (b : Bool) (value : Nat) : Nat := if b then value else 0

/-- Reads a header: twelve octets, of which two hold flags and codes. -/
def Reader.header : Reader Header := do
  let id ← Reader.word16
  let flags ← Reader.word16
  let questionCount ← Reader.word16
  let answerCount ← Reader.word16
  let authorityCount ← Reader.word16
  let additionalCount ← Reader.word16
  let hi := flags.toNat / 256
  let lo := flags.toNat % 256
  pure {
    id
    recursionDesired := hi.testBit 0
    truncated := hi.testBit 1
    authoritative := hi.testBit 2
    opcode := UInt8.ofNat (hi / 8 % 16)
    isResponse := hi.testBit 7
    code := ResponseCode.ofNumber (UInt8.ofNat (lo % 16))
    checkingDisabled := lo.testBit 4
    authenticData := lo.testBit 5
    reserved := lo.testBit 6
    recursionAvailable := lo.testBit 7
    questionCount
    answerCount
    authorityCount
    additionalCount }

/-- Writes a header. Of the operation and the response code the low four bits
    are written. -/
def Writer.header (header : Header) : Writer Unit := do
  Writer.word16 header.id
  Writer.octet (UInt8.ofNat (bitValue header.recursionDesired 1 +
    bitValue header.truncated 2 + bitValue header.authoritative 4 +
    header.opcode.toNat % 16 * 8 + bitValue header.isResponse 128))
  Writer.octet (UInt8.ofNat (header.code.toNumber.toNat % 16 +
    bitValue header.checkingDisabled 16 + bitValue header.authenticData 32 +
    bitValue header.reserved 64 + bitValue header.recursionAvailable 128))
  Writer.word16 header.questionCount
  Writer.word16 header.answerCount
  Writer.word16 header.authorityCount
  Writer.word16 header.additionalCount

/-! ## Questions -/

/-- What a message asks. -/
structure Question where
  name : String
  type : RecordType
  cls : UInt16
deriving Repr, DecidableEq, Inhabited

namespace Question

/-- The line that summarises a question. -/
def summary (question : Question) : String :=
  question.name ++ " " ++ question.type.label

/-- The document of a question. -/
def toJson (question : Question) : Json :=
  .obj [("name", .str question.name), ("qtype", question.type.toJson),
    ("qclass", .num question.cls.toNat)]

end Question

/-- Reads a question. -/
def Reader.question : Reader Question := do
  let name ← Reader.name
  let type ← Reader.word16
  let cls ← Reader.word16
  pure ⟨name, RecordType.ofNumber type, cls⟩

/-- Writes a question. -/
def Writer.question (question : Question) : Writer Unit := do
  Writer.name question.name
  Writer.word16 question.type.toNumber
  Writer.word16 question.cls

/-! ## Messages -/

/-- A whole message. -/
structure Message where
  header : Header
  questions : List Question
  answers : List Record
  authorities : List Record
  additionals : List Record
deriving Repr, DecidableEq, Inhabited

/-- Reads a message: its header and then what the header counts. -/
def Reader.message : Reader Message := do
  let header ← Reader.header
  let questions ← Reader.times header.questionCount.toNat Reader.question
  let answers ← Reader.times header.answerCount.toNat Reader.record
  let authorities ← Reader.times header.authorityCount.toNat Reader.record
  let additionals ← Reader.times header.additionalCount.toNat Reader.record
  pure { header, questions, answers, authorities, additionals }

/-- Takes a writing step for each item. -/
def Writer.each {α : Type} (step : α → Writer Unit) : List α → Writer Unit
  | [] => pure ()
  | item :: rest => do
    step item
    Writer.each step rest

namespace Message

/-- The message with the number of entries in each section in its header,
    modulo 2^16. -/
def withCounts (message : Message) : Message :=
  { message with header := { message.header with
      questionCount := UInt16.ofNat message.questions.length
      answerCount := UInt16.ofNat message.answers.length
      authorityCount := UInt16.ofNat message.authorities.length
      additionalCount := UInt16.ofNat message.additionals.length } }

/-- The records of the three sections, in the order in which they travel. -/
def records (message : Message) : List Record :=
  message.answers ++ message.authorities ++ message.additionals

end Message

/-- Writes a message with the counts that its sections have. -/
def Writer.message (message : Message) : Writer Unit := do
  Writer.header message.withCounts.header
  Writer.each Writer.question message.questions
  Writer.each Writer.record message.records

namespace Message

/-- The message in captured octets. What follows it is not looked at. -/
def ofOctets (octets : Octets) : Except WireError Message :=
  match (Wire.ofCaptured octets).read Reader.message with
  | .ok message _ => .ok message
  | .error cause _ => .error cause

/-- The octets of a message. -/
def toOctets (message : Message) : Except WireError Octets :=
  match Writer.message message Wire.empty with
  | .ok _ wire => .ok wire.octets.toList
  | .error cause _ => .error cause

/-- The document of a message. -/
def toJson (message : Message) : Json :=
  .obj [("header", message.header.toJson),
    ("questions", .arr (message.questions.map Question.toJson)),
    ("answers", .arr (message.answers.map Record.toJson)),
    ("authorities", .arr (message.authorities.map Record.toJson)),
    ("resources", .arr (message.additionals.map Record.toJson))]

end Message

end PassiveDns.Dns
