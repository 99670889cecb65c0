/-
  PassiveDns.Proofs.Dns.Messages

  A message that is written can be read, and what is read is the message, with
  the counts of its sections filled in and its names normalised. Nothing is
  asked of the way in which names share suffixes, or of the length of the message.
-/
import PassiveDns.Proofs.Dns.Records

namespace PassiveDns.Dns

/-! ## Codes -/

theorem RecordType.toNumber_ofNumber (number : UInt16) : (ofNumber number).toNumber = number := by
  rw [ofNumber]
  split
  case h_15 => rfl
  all_goals
    apply UInt16.toNat_inj.mp
    symm
    assumption

theorem ResponseCode.toNumber_ofNumber (number : UInt8) : (ofNumber number).toNumber = number := by
  rw [ofNumber]
  split
  case h_7 => rfl
  all_goals
    apply UInt8.toNat_inj.mp
    symm
    assumption

/-! ## Headers -/

/-- Headers whose operation takes four bits, and whose response code is the one
    that four bits stand for. -/
structure Header.Fits (header : Header) : Prop where
  opcode : header.opcode.toNat < 16
  code : ∃ number : UInt8, number.toNat < 16 ∧ header.code = ResponseCode.ofNumber number

theorem bitValue_eq (b : Bool) (value : Nat) : bitValue b value = b.toNat * value := by
  cases b
  · exact (Nat.zero_mul value).symm
  · exact (Nat.one_mul value).symm

/-- The bits of the first octet of flags, from the lowest on. -/
theorem high_flags (recursionDesired truncated authoritative isResponse : Bool) {opcode : Nat}
    (h : opcode < 16) :
    let hi := bitValue recursionDesired 1 + bitValue truncated 2 + bitValue authoritative 4 +
      opcode % 16 * 8 + bitValue isResponse 128
    hi < 256 ∧ hi.testBit 0 = recursionDesired ∧ hi.testBit 1 = truncated ∧
      hi.testBit 2 = authoritative ∧ hi / 8 % 16 = opcode ∧ hi.testBit 7 = isResponse := by
  have hrecursionDesired := recursionDesired.toNat_le
  have htruncated := truncated.toNat_le
  have hauthoritative := authoritative.toNat_le
  have hisResponse := isResponse.toNat_le
  simp only [bitValue_eq]
  refine ⟨by omega, ?_, ?_, ?_, by omega, ?_⟩
  all_goals
    apply Octets.testBit_of_mod
    omega

/-- The bits of the second octet of flags, from the lowest on. -/
theorem low_flags (checkingDisabled authenticData reserved recursionAvailable : Bool) {code : Nat}
    (h : code < 16) :
    let lo := code % 16 + bitValue checkingDisabled 16 + bitValue authenticData 32 +
      bitValue reserved 64 + bitValue recursionAvailable 128
    lo < 256 ∧ lo % 16 = code ∧ lo.testBit 4 = checkingDisabled ∧ lo.testBit 5 = authenticData ∧
      lo.testBit 6 = reserved ∧ lo.testBit 7 = recursionAvailable := by
  have hcheckingDisabled := checkingDisabled.toNat_le
  have hauthenticData := authenticData.toNat_le
  have hreserved := reserved.toNat_le
  have hrecursionAvailable := recursionAvailable.toNat_le
  simp only [bitValue_eq]
  refine ⟨by omega, by omega, ?_, ?_, ?_, ?_⟩
  all_goals
    apply Octets.testBit_of_mod
    omega

namespace Header

/-- The first octet of flags. -/
def highFlags (header : Header) : Nat :=
  bitValue header.recursionDesired 1 + bitValue header.truncated 2 +
    bitValue header.authoritative 4 + header.opcode.toNat % 16 * 8 + bitValue header.isResponse 128

/-- The second octet of flags. -/
def lowFlags (header : Header) : Nat :=
  header.code.toNumber.toNat % 16 + bitValue header.checkingDisabled 16 +
    bitValue header.authenticData 32 + bitValue header.reserved 64 +
    bitValue header.recursionAvailable 128

/-- The header with the given words. -/
def ofWords (id flags questionCount answerCount authorityCount additionalCount : UInt16) :
    Header :=
  let hi := flags.toNat / 256
  let lo := flags.toNat % 256
  { id
    recursionDesired := hi.testBit 0
    truncated := hi.testBit 1
    authoritative := hi.testBit 2
    opcode := UInt8.ofNat (hi / 8 % 16)
    isResponse := hi.testBit 7
    code := ResponseCode.ofNumber (UInt8.ofNat (lo % 16))
    checkingDisabled := lo.testBit 4
    authenticData := lo.testBit 5
    reserved := lo.testBit 6
    recursionAvailable := lo.testBit 7
    questionCount
    answerCount
    authorityCount
    additionalCount }

/-- The words of a header give it back. -/
theorem ofWords_flags {header : Header} (h : header.Fits) :
    ofWords header.id
      (Octets.word16 (UInt8.ofNat header.highFlags) (UInt8.ofNat header.lowFlags))
      header.questionCount header.answerCount header.authorityCount header.additionalCount =
      header := by
  obtain ⟨number, hnumber, hcode⟩ := h.code
  have hnat : header.code.toNumber.toNat < 16 := by
    rw [hcode, ResponseCode.toNumber_ofNumber]
    exact hnumber
  obtain ⟨hhi, hrd, htc, haa, hop, hqr⟩ := high_flags header.recursionDesired header.truncated
    header.authoritative header.isResponse h.opcode
  obtain ⟨hlo, hrc, hcd, had, hz, hra⟩ := low_flags header.checkingDisabled header.authenticData
    header.reserved header.recursionAvailable hnat
  rw [← highFlags] at hhi hrd htc haa hop hqr
  rw [← lowFlags] at hlo hrc hcd had hz hra
  have hword : (Octets.word16 (UInt8.ofNat header.highFlags) (UInt8.ofNat header.lowFlags)).toNat =
      header.highFlags * 256 + header.lowFlags := by
    rw [Octets.toNat_word16, Octets.toNat_ofNat, Octets.toNat_ofNat, Nat.mod_eq_of_lt hhi,
      Nat.mod_eq_of_lt hlo]
  have hdiv : (header.highFlags * 256 + header.lowFlags) / 256 = header.highFlags := by omega
  have hmod : (header.highFlags * 256 + header.lowFlags) % 256 = header.lowFlags := by omega
  rw [ofWords, hword, hdiv, hmod, hrd, htc, haa, hop, hqr, hrc, hcd, had, hz, hra,
    UInt8.ofNat_toNat, UInt8.ofNat_toNat, hcode, ResponseCode.toNumber_ofNumber, ← hcode]

end Header

theorem Reader.header_eq :
    Reader.header = (Reader.word16 >>= fun id => Reader.word16 >>= fun flags =>
      Reader.word16 >>= fun questionCount => Reader.word16 >>= fun answerCount =>
        Reader.word16 >>= fun authorityCount => Reader.word16 >>= fun additionalCount =>
          pure (Header.ofWords id flags questionCount answerCount authorityCount
            additionalCount)) := rfl

theorem Writer.header_eq (header : Header) :
    Writer.header header = (Writer.word16 header.id >>= fun _ =>
      Writer.octets [UInt8.ofNat header.highFlags, UInt8.ofNat header.lowFlags] >>= fun _ =>
        Writer.word16 header.questionCount >>= fun _ =>
          Writer.word16 header.answerCount >>= fun _ =>
          Writer.word16 header.authorityCount >>= fun _ =>
            Writer.word16 header.additionalCount) := by
  simp only [Writer.octets, bind_assoc, pure_bind]
  rfl

theorem carries_header {header : Header} (h : header.Fits) :
    Carries (Writer.header header) Reader.header header 12 := by
  have hcarries : Carries (Writer.header header) Reader.header (Header.ofWords header.id
      (Octets.word16 (UInt8.ofNat header.highFlags) (UInt8.ofNat header.lowFlags))
      header.questionCount header.answerCount header.authorityCount header.additionalCount)
      (2 + (2 + (2 + (2 + (2 + 2))))) := by
    rw [Reader.header_eq, Writer.header_eq]
    refine (Carries.word16 header.id).bind ?_
    refine (Carries.pair _ _).bind ?_
    refine (Carries.word16 header.questionCount).bind ?_
    refine (Carries.word16 header.answerCount).bind ?_
    refine (Carries.word16 header.authorityCount).bind ?_
    exact (Carries.word16 header.additionalCount).map _
  rwa [Header.ofWords_flags h] at hcarries

/-! ## Questions -/

/-- Questions whose name fits, and whose type is the one that its number stands
    for. -/
structure Question.Fits (question : Question) : Prop where
  name : Name.Fits question.name
  type : ∃ number : UInt16, question.type = RecordType.ofNumber number

/-- The question with its name as reading gives it. -/
def Question.normalised (question : Question) : Question :=
  { question with name := Name.normalised question.name }

theorem carries_question {question : Question} (h : question.Fits) :
    Carries (Writer.question question) Reader.question question.normalised 260 := by
  obtain ⟨number, htype⟩ := h.type
  have hcarries : Carries (Writer.question question) Reader.question
      ⟨Name.normalised question.name, RecordType.ofNumber question.type.toNumber, question.cls⟩
      (256 + (2 + 2)) := by
    refine (carries_name h.name).bind ?_
    refine (Carries.word16 question.type.toNumber).bind ?_
    exact (Carries.word16 question.cls).map _
  rwa [htype, RecordType.toNumber_ofNumber, ← htype] at hcarries

/-! ## Whole messages -/

theorem Writer.each_append {α : Type} (step : α → Writer Unit) (first second : List α) :
    Writer.each step (first ++ second) =
      (Writer.each step first >>= fun _ => Writer.each step second) := by
  induction first with
  | nil => rfl
  | cons item rest ih => rw [List.cons_append, Writer.each, Writer.each, ih, bind_assoc]

theorem Wire.read_ok {α : Type} {step : Reader α} {wire : Wire} {value : α} {m : Nat}
    (h : step wire.source wire.position = .ok value m) :
    wire.read step = .ok value { wire with position := m } := by
  rw [Wire.read, h]

theorem Wire.read_error {α : Type} {step : Reader α} {wire : Wire} {cause : WireError} {m : Nat}
    (h : step wire.source wire.position = .error cause m) :
    wire.read step = .error cause { wire with position := m } := by
  rw [Wire.read, h]

theorem Wire.read_inv {α : Type} {step : Reader α} {wire after : Wire} {value : α}
    (h : wire.read step = .ok value after) :
    step wire.source wire.position = .ok value after.position := by
  rw [Wire.read] at h
  cases hstep : step wire.source wire.position with
  | ok a m =>
    rw [hstep] at h
    cases h
    rfl
  | error cause m =>
    rw [hstep] at h
    cases h

namespace Message

/-- Messages whose parts can be written and read, and whose sections can be
    counted. -/
structure Fits (message : Message) : Prop where
  header : message.header.Fits
  questionCount : message.questions.length ≤ 65535
  answerCount : message.answers.length ≤ 65535
  authorityCount : message.authorities.length ≤ 65535
  additionalCount : message.additionals.length ≤ 65535
  questions : ∀ question ∈ message.questions, question.Fits
  records : ∀ record ∈ message.records, record.Fits

/-- The message with its names as reading gives them. -/
def normalised (message : Message) : Message :=
  { message with
    questions := message.questions.map Question.normalised
    answers := message.answers.map Record.normalised
    authorities := message.authorities.map Record.normalised
    additionals := message.additionals.map Record.normalised }

theorem exists_carries {message : Message} (h : message.Fits) :
    ∃ size, Carries (Writer.message message) Reader.message message.withCounts.normalised size := by
  have hheader : message.withCounts.header.Fits := ⟨h.header.opcode, h.header.code⟩
  have hcount : ∀ {n : Nat}, n ≤ 65535 → (UInt16.ofNat n).toNat = n := by
    intro n hn
    rw [UInt16.toNat_ofNat']
    omega
  have hrecords : ∀ record ∈ message.records,
      Carries (Writer.record record) Reader.record record.normalised 65801 :=
    fun record hrecord => carries_record (h.records record hrecord)
  refine ⟨12 + (message.questions.length * 260 + (message.answers.length * 65801 +
    (message.authorities.length * 65801 + message.additionals.length * 65801))), ?_⟩
  rw [Writer.message, Reader.message, records, List.append_assoc, Writer.each_append,
    Writer.each_append]
  refine (carries_header hheader).bind ?_
  rw [withCounts]
  dsimp only
  rw [hcount h.questionCount, hcount h.answerCount, hcount h.authorityCount,
    hcount h.additionalCount]
  refine (Carries.each fun question hq => carries_question (h.questions question hq)).bind ?_
  refine (Carries.each fun record hr => hrecords record ?_).bind ?_
  · exact List.mem_append_left _ (List.mem_append_left _ hr)
  refine (Carries.each fun record hr => hrecords record ?_).bind ?_
  · exact List.mem_append_left _ (List.mem_append_right _ hr)
  refine (Carries.each fun record hr => hrecords record ?_).map _
  exact List.mem_append_right _ hr

/-- **Round trip.** A message that fits is written, and what was written is read
    as the message itself, its counts filled in and its names normalised. -/
theorem ofOctets_toOctets (message : Message) (h : message.Fits) :
    ∃ octets, message.toOctets = .ok octets ∧
      ofOctets octets = .ok message.withCounts.normalised := by
  obtain ⟨size, hcarries⟩ := exists_carries h
  obtain ⟨octets, after, _, happends, hread⟩ := hcarries 0 []
  have hwrite : Writer.message message Wire.empty = .ok () (.draft octets after) := happends [] rfl
  refine ⟨octets, ?_, ?_⟩
  · rw [toOctets, hwrite]
    rfl
  · obtain ⟨_, hvalue⟩ := hread (Wire.ofCaptured octets).source (Holds.whole octets)
      (Name.sound_nil octets.toArray)
    have hposition : Reader.message (Wire.ofCaptured octets).source
        (Wire.ofCaptured octets).position = .ok message.withCounts.normalised _ := hvalue
    rw [ofOctets, Wire.read_ok hposition]

/-- An answer with a record of every kind that is written. Its names share suffixes
    across questions, owners and data, some of them through two pointers. -/
def delegation : Message where
  header := {
    id := 0xBEEF
    recursionDesired := true
    truncated := false
    authoritative := true
    opcode := 5
    isResponse := true
    code := .other 11
    checkingDisabled := false
    authenticData := true
    reserved := false
    recursionAvailable := true
    questionCount := 0
    answerCount := 7
    authorityCount := 0
    additionalCount := 0 }
  questions := [⟨"www.example.com", .other 1000, 1⟩]
  answers := [.resource "www.example.com." 300 (.cname "web.www.example.com"),
    .resource "web.www.example.com" 60 (.a 0xC0000201#32),
    .resource "example.com" 60 (.mx 10 "mail.web.www.example.com"),
    .resource "example.com" 60 (.txt ["v=spf1 -all", "", "häh"]),
    .resource "_dns._tcp.example.com" 60 (.srv 1 2 53 "")]
  authorities := [.resource "com" 86400 (.ns "ns.example.com"),
    .resource "" 86400 (.soa "ns.example.com" "root..com" 1 2 3 4 5)]
  additionals := [.resource "ns.example.com" 60 (.aaaa 0x20010DB8000000000000000000000001#128),
    .resource "1.2.0.192.in-addr.arpa" 60 (.ptr "web.www.example.com"),
    .options 1232 0x8000 0]

theorem delegation_fits : delegation.Fits where
  header := ⟨by decide, 11, by decide, rfl⟩
  questionCount := by decide
  answerCount := by decide
  authorityCount := by decide
  additionalCount := by decide
  questions := by
    intro question hquestion
    obtain rfl := List.mem_singleton.mp hquestion
    exact ⟨by decide, 1000, rfl⟩
  records := by decide

theorem delegation_returns : delegation.Fits ∧ ∃ octets, delegation.toOctets = .ok octets ∧
    ofOctets octets = .ok delegation.withCounts.normalised :=
  ⟨delegation_fits, ofOctets_toOctets delegation delegation_fits⟩

end Message

end PassiveDns.Dns
