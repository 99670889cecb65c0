/-
  PassiveDns.Proofs.Dns.Consumption

  What a message is read from. No step looks at how many octets there are except
  to see that those it reads exist, so what is read from some octets is read from
  them whatever follows, and from none of the strings that end before the cursor
  does. A question takes at least five octets and a record eleven, so octets pay
  for every entry of a message.
-/
import PassiveDns.Proofs.Dns.Watched

namespace PassiveDns.Dns

/-- The source with more octets behind the ones it has. -/
def Source.followedBy (source : Source) (more : Array UInt8) : Source :=
  { source with octets := source.octets ++ more }

namespace Reader

variable {α β : Type} {source : Source} {n m : Nat}

/-! ## Steps that do not look ahead -/

/-- A step asks for octets that there are not. -/
def RunsOut (step : Reader α) (source : Source) (n : Nat) : Prop :=
  ∃ m, step source n = .error .endOfBuffer m

/-- A step that does not run out of octets ends alike whatever follows them: with the
    same value or for the same cause, and with the same cursor. -/
def Settled (step : Reader α) : Prop :=
  ∀ ⦃source n⦄, ¬RunsOut step source n → ∀ more, step (source.followedBy more) n = step source n

theorem not_runsOut_of_ok {step : Reader α} {a : α} (h : step source n = .ok a m) :
    ¬RunsOut step source n := by
  rintro ⟨k, hfailed⟩
  rw [h] at hfailed
  cases hfailed

/-- Steps one after the other run out where the first does, or the next from where the
    first ends. -/
theorem runsOut_bind_iff {read : Reader α} {next : α → Reader β} :
    RunsOut (read >>= next) source n ↔
      RunsOut read source n ∨ ∃ a m, read source n = .ok a m ∧ RunsOut (next a) source m := by
  rw [RunsOut, RunsOut]
  cases hread : read source n with
  | ok a m =>
    rw [bind_ok hread]
    constructor
    · exact fun hrest => .inr ⟨a, m, rfl, hrest⟩
    · rintro (⟨_, hfailed⟩ | ⟨_, _, hdone, hrest⟩)
      · cases hfailed
      · cases hdone
        exact hrest
  | error cause m =>
    rw [bind_failed hread]
    constructor
    · rintro ⟨k, hfailed⟩
      cases hfailed
      exact .inl ⟨m, rfl⟩
    · rintro (⟨k, hfailed⟩ | ⟨_, _, hdone, _⟩)
      · cases hfailed
        exact ⟨m, rfl⟩
      · cases hdone

/-- A step that succeeds does so with the same value and the same cursor. -/
theorem Settled.ok {step : Reader α} (hstep : Settled step) {a : α} (h : step source n = .ok a m)
    (more : Array UInt8) : step (source.followedBy more) n = .ok a m := by
  rw [hstep (not_runsOut_of_ok h) more, h]

theorem settled_pure (a : α) : Settled (pure a) := fun _ _ _ _ => rfl

theorem Settled.bind {read : Reader α} {next : α → Reader β} (hread : Settled read)
    (hnext : ∀ a, Settled (next a)) : Settled (read >>= next) := by
  intro source n h more
  rw [runsOut_bind_iff, not_or] at h
  obtain ⟨hfirst, hrest⟩ := h
  have hsame := hread hfirst more
  cases hdone : read source n with
  | ok a m =>
    rw [hdone] at hsame
    rw [bind_ok hdone, bind_ok hsame, hnext a (fun h => hrest ⟨a, m, hdone, h⟩) more]
  | error cause m =>
    rw [hdone] at hsame
    rw [bind_failed hdone, bind_failed hsame]

theorem settled_position : Settled Reader.position := fun _ _ _ _ => rfl

theorem settled_octetAt (i : Nat) : Settled (Reader.octetAt i) := by
  intro source n h more
  cases hb : source.octets[i]? with
  | none => exact absurd ⟨n, octetAt_error hb n⟩ h
  | some b => rw [octetAt_ok hb, octetAt_ok (getElem?_append_of_eq_some hb more)]

theorem extract_append_of_le {message : Array UInt8} {stop : Nat} (h : stop ≤ message.size)
    (more : Array UInt8) (start : Nat) :
    (message ++ more).extract start stop = message.extract start stop := by
  have hnone : more.extract (start - message.size) 0 = #[] :=
    Array.extract_eq_empty_of_le (by omega)
  rw [Array.extract_append, Nat.sub_eq_zero_of_le h, hnone, Array.append_empty]

theorem settled_range (start count : Nat) : Settled (Reader.range start count) := by
  intro source n h more
  by_cases hend : start + count ≤ source.octets.size
  · have hsize : start + count ≤ (source.octets ++ more).size := by
      rw [Array.size_append]
      omega
    rw [range_of_le hend, range_of_le hsize]
    show EStateM.Result.ok ((source.octets ++ more).extract start (start + count)).toList n = _
    rw [extract_append_of_le hend]
  · exact absurd ⟨n, range_error hend n⟩ h

theorem settled_seek (i : Nat) : Settled (Reader.seek i) := by
  intro source n h more
  cases haccess : source.access with
  | draft =>
    rw [seek_draft haccess]
    apply seek_draft
    exact haccess
  | view =>
    by_cases hi : i ≤ source.octets.size
    · have hsize : i ≤ (source.octets ++ more).size := by
        rw [Array.size_append]
        omega
      rw [seek_ok hi]
      exact seek_ok hsize n
    · exact absurd ⟨n, seek_error haccess hi n⟩ h

/-- A name is followed alike, to its end or to what is wrong with it. -/
theorem walk_append {message : Array UInt8} {start jumps used : Nat}
    (h : (Name.walk message start jumps used).labels ≠ .error .endOfBuffer) (more : Array UInt8) :
    Name.walk (message ++ more) start jumps used = Name.walk message start jumps used := by
  fun_induction Name.walk message start jumps used with
  | case1 => exact absurd rfl h
  | case2 start jumps used b hb hpointer hjumps =>
    rw [Name.walk, getElem?_append_of_eq_some hb more]
    dsimp only
    rw [if_pos hpointer, if_pos hjumps]
  | case3 => exact absurd rfl h
  | case4 start jumps used b hb hpointer hjumps lo hlo ih =>
    rw [Name.walk, getElem?_append_of_eq_some hb more]
    dsimp only
    rw [if_pos hpointer, if_neg hjumps, getElem?_append_of_eq_some hlo more]
    dsimp only
    rw [ih h]
  | case5 start jumps used b hb hpointer hreserved =>
    rw [Name.walk, getElem?_append_of_eq_some hb more]
    dsimp only
    rw [if_neg hpointer, if_pos hreserved]
  | case6 start jumps used b hb hpointer hreserved hzero =>
    rw [Name.walk, getElem?_append_of_eq_some hb more]
    dsimp only
    rw [if_neg hpointer, if_neg hreserved, if_pos hzero]
  | case7 start jumps used b hb hpointer hreserved hzero hmax =>
    rw [Name.walk, getElem?_append_of_eq_some hb more]
    dsimp only
    rw [if_neg hpointer, if_neg hreserved, if_neg hzero, if_pos hmax]
  | case8 start jumps used b hb hpointer hreserved hzero hmax hend label rest ih =>
    have hrest : rest.labels ≠ .error .endOfBuffer := fun hfailed => h (by rw [hfailed]; rfl)
    have hsize : start + 1 + b.toNat ≤ (message ++ more).size := by
      rw [Array.size_append]
      omega
    rw [Name.walk, getElem?_append_of_eq_some hb more]
    dsimp only
    rw [if_neg hpointer, if_neg hreserved, if_neg hzero, if_neg hmax, if_pos hsize,
      extract_append_of_le hend, ih hrest]
  | case9 => exact absurd rfl h

theorem settled_name : Settled Reader.name := by
  intro source n h more
  have hlabels : (Name.walk source.octets n 0 0).labels ≠ .error .endOfBuffer := fun hfailed =>
    h ⟨_, by rw [name_walk, hfailed]⟩
  have hwalk : Name.walk (source.followedBy more).octets n 0 0 = Name.walk source.octets n 0 0 :=
    walk_append hlabels more
  rw [name_walk, name_walk, hwalk]

/-! ## Steps that take octets -/

/-- A settled step whose every success takes at least `cost` octets. -/
structure Pays (step : Reader α) (cost : Nat) : Prop where
  settled : Settled step
  forward : ∀ ⦃source n a m⦄, step source n = .ok a m → n + cost ≤ m

theorem pays_pure (a : α) : Pays (pure a) 0 where
  settled := settled_pure a
  forward := by
    intro source n b m h
    cases h
    exact Nat.le_refl n

theorem Pays.bind {read : Reader α} {next : α → Reader β} {cost costNext : Nat}
    (hread : Pays read cost) (hnext : ∀ a, Pays (next a) costNext) :
    Pays (read >>= next) (cost + costNext) where
  settled := hread.settled.bind fun a => (hnext a).settled
  forward := by
    intro source n b k h
    obtain ⟨a, m, ha, hb⟩ := bind_inv h
    have hfirst := hread.forward ha
    have hsecond := (hnext a).forward hb
    omega

theorem settled_octet : Settled Reader.octet := by
  apply settled_position.bind
  intro i
  apply (settled_octetAt i).bind
  intro b source n _ more
  rfl

theorem pays_octet : Pays Reader.octet 1 where
  settled := settled_octet
  forward := by
    intro source n b m h
    obtain ⟨_, rfl⟩ := octet_inv h
    exact Nat.le_refl (n + 1)

theorem pays_word16 : Pays Reader.word16 2 :=
  pays_octet.bind fun _ => pays_octet.bind fun _ => pays_pure _

theorem pays_word32 : Pays Reader.word32 4 :=
  pays_octet.bind fun _ => pays_octet.bind fun _ => pays_octet.bind fun _ =>
    pays_octet.bind fun _ => pays_pure _

/-- A name takes an octet at least, if only that of a length or of a pointer. -/
theorem pays_name : Pays Reader.name 1 where
  settled := settled_name
  forward := by
    intro source n text m h
    obtain ⟨labels, jumps, hspells, _⟩ := name_inv h
    exact hspells.lt_stop

theorem pays_times {step : Reader α} {cost : Nat} (hstep : Pays step cost) (count : Nat) :
    Pays (Reader.times count step) (count * cost) := by
  induction count with
  | zero =>
    rw [Nat.zero_mul]
    exact pays_pure []
  | succ count ih =>
    rw [Nat.succ_mul, Nat.add_comm (count * cost)]
    exact hstep.bind fun value => ih.bind fun values => pays_pure (value :: values)

/-- As many values are collected as steps were asked for. -/
theorem length_times {step : Reader α} {count : Nat} {values : List α}
    (h : Reader.times count step source n = .ok values m) : values.length = count := by
  induction count generalizing n values with
  | zero =>
    cases h
    rfl
  | succ count ih =>
    obtain ⟨value, k, _, hrest⟩ := bind_inv h
    obtain ⟨others, l, hothers, hvalues⟩ := bind_inv hrest
    cases hvalues
    rw [List.length_cons, ih hothers]

/-! ## Records -/

theorem settled_chunks (start stop : Nat) : Settled (Reader.chunks start stop) := by
  fun_induction Reader.chunks start stop with
  | case1 start h ih =>
    apply (settled_octetAt start).bind
    intro length
    apply (settled_range _ _).bind
    intro chunk
    apply (ih length).bind
    intro chunks
    exact settled_pure _
  | case2 start h => exact settled_pure []

theorem settled_recordData (type : RecordType) (start : Nat) (length : UInt16) :
    Settled (Reader.recordData type start length) := by
  have hname : ∀ make : String → RecordData,
      Settled (Reader.name >>= fun host => pure (make host)) :=
    fun make => settled_name.bind fun host => settled_pure (make host)
  have hword : Settled Reader.word16 := pays_word16.settled
  have hlong : Settled Reader.word32 := pays_word32.settled
  cases type with
  | a =>
    by_cases hlength : length = 4
    · rw [Reader.recordData, if_pos hlength]
      exact hlong.bind fun _ => settled_pure _
    · rw [Reader.recordData, if_neg hlength]
      exact settled_pure _
  | aaaa =>
    by_cases hlength : length = 16
    · rw [Reader.recordData, if_pos hlength]
      exact (settled_range start 16).bind fun _ => settled_pure _
    · rw [Reader.recordData, if_neg hlength]
      exact settled_pure _
  | ns => exact hname .ns
  | cname => exact hname .cname
  | ptr => exact hname .ptr
  | srv =>
    exact hword.bind fun _ => hword.bind fun _ => hword.bind fun _ => hname _
  | mx => exact hword.bind fun _ => hname _
  | soa =>
    exact settled_name.bind fun _ => settled_name.bind fun _ => hlong.bind fun _ =>
      hlong.bind fun _ => hlong.bind fun _ => hlong.bind fun _ => hlong.bind fun _ =>
        settled_pure _
  | txt => exact (settled_chunks start _).bind fun _ => settled_pure _
  | _ => exact settled_pure _

/-- Reading the data does not settle where the cursor goes, the length does: it is
    put behind the data from wherever reading them has left it. -/
theorem pays_recordBody (owner : String) (type cls : UInt16) (ttl : UInt32) :
    Pays (Reader.recordBody owner type cls ttl) 2 where
  settled := by
    apply pays_word16.settled.bind
    intro length
    apply settled_position.bind
    intro start
    apply (settled_range start length.toNat).bind
    intro _
    have hbehind : ∀ record : Record, Settled (Reader.seek (start + length.toNat) >>= fun _ =>
        pure record) :=
      fun record => (settled_seek _).bind fun _ => settled_pure record
    cases RecordType.ofNumber type with
    | opt => exact hbehind _
    | _ => exact (settled_recordData _ start length).bind fun _ => hbehind _
  forward := by
    intro source n record m h
    obtain ⟨length, k, hlength, h⟩ := bind_inv h
    have hstart := pays_word16.forward hlength
    obtain ⟨start, _, hposition, h⟩ := bind_inv h
    cases hposition
    obtain ⟨_, l, _, h⟩ := bind_inv h
    have hbehind : ∀ (read : Record) (i : Nat),
        (Reader.seek (k + length.toNat) >>= fun _ => pure read) source i = .ok record m →
        n + 2 ≤ m := by
      intro read i hend
      obtain ⟨_, _, hseek, hpure⟩ := bind_inv hend
      cases hpure
      obtain ⟨rfl, _⟩ := seek_inv hseek
      omega
    generalize RecordType.ofNumber type = known at h
    cases known with
    | opt => exact hbehind _ _ h
    | _ =>
      obtain ⟨_, _, _, hend⟩ := bind_inv h
      exact hbehind _ _ hend

theorem pays_record : Pays Reader.record 11 := by
  rw [Reader.record_eq]
  exact pays_name.bind fun owner => pays_word16.bind fun type => pays_word16.bind fun cls =>
    pays_word32.bind fun ttl => pays_recordBody owner type cls ttl

/-! ## Messages -/

theorem pays_header : Pays Reader.header 12 := by
  rw [Reader.header_eq]
  exact pays_word16.bind fun _ => pays_word16.bind fun _ => pays_word16.bind fun _ =>
    pays_word16.bind fun _ => pays_word16.bind fun _ => pays_word16.bind fun _ => pays_pure _

theorem pays_question : Pays Reader.question 5 :=
  pays_name.bind fun _ => pays_word16.bind fun _ => pays_word16.bind fun _ => pays_pure _

theorem settled_message : Settled Reader.message :=
  pays_header.settled.bind fun _ => (pays_times pays_question _).settled.bind fun _ =>
    (pays_times pays_record _).settled.bind fun _ =>
      (pays_times pays_record _).settled.bind fun _ =>
        (pays_times pays_record _).settled.bind fun _ => settled_pure _

/-- The sections have as many entries as the header counts, and the octets up to the
    cursor pay for them. -/
theorem message_inv {message : Message} (h : Reader.message source n = .ok message m) :
    message.questions.length = message.header.questionCount.toNat ∧
      message.answers.length = message.header.answerCount.toNat ∧
      message.authorities.length = message.header.authorityCount.toNat ∧
      message.additionals.length = message.header.additionalCount.toNat ∧
      n + (12 + 5 * message.questions.length + 11 * (message.answers.length +
        message.authorities.length + message.additionals.length)) ≤ m := by
  obtain ⟨header, n₁, hheader, h⟩ := bind_inv h
  obtain ⟨questions, n₂, hquestions, h⟩ := bind_inv h
  obtain ⟨answers, n₃, hanswers, h⟩ := bind_inv h
  obtain ⟨authorities, n₄, hauthorities, h⟩ := bind_inv h
  obtain ⟨additionals, n₅, hadditionals, h⟩ := bind_inv h
  cases h
  have h₁ := pays_header.forward hheader
  have h₂ := (pays_times pays_question _).forward hquestions
  have h₃ := (pays_times pays_record _).forward hanswers
  have h₄ := (pays_times pays_record _).forward hauthorities
  have h₅ := (pays_times pays_record _).forward hadditionals
  have hquestions := length_times hquestions
  have hanswers := length_times hanswers
  have hauthorities := length_times hauthorities
  have hadditionals := length_times hadditionals
  refine ⟨hquestions, hanswers, hauthorities, hadditionals, ?_⟩
  dsimp only
  omega

end Reader

namespace Message

variable {octets : Octets} {message : Message} {n : Nat}

theorem ofOctets_ok (h : Reader.message (Wire.ofCaptured octets).source 0 = .ok message n) :
    ofOctets octets = .ok message := by
  have hread : (Wire.ofCaptured octets).read Reader.message = .ok message _ := Wire.read_ok h
  rw [ofOctets, hread]

theorem ofOctets_error {cause : WireError}
    (h : Reader.message (Wire.ofCaptured octets).source 0 = .error cause n) :
    ofOctets octets = .error cause := by
  have hread : (Wire.ofCaptured octets).read Reader.message = .error cause _ := Wire.read_error h
  rw [ofOctets, hread]

/-- What follows a message is not looked at. -/
theorem read_append (h : Reader.message (Wire.ofCaptured octets).source 0 = .ok message n)
    (more : Octets) :
    Reader.message (Wire.ofCaptured (octets ++ more)).source 0 = .ok message n := by
  have hsource : (Wire.ofCaptured (octets ++ more)).source =
      (Wire.ofCaptured octets).source.followedBy more.toArray := by
    rw [Wire.source, Wire.source, Source.followedBy, Wire.ofCaptured, Wire.ofCaptured,
      List.append_toArray]
  rw [hsource]
  exact Reader.settled_message.ok h more.toArray

/-- Reading captured octets never leaves them. -/
theorem follows (octets : Octets) :
    Watched.Follows Watched.message Reader.message (Wire.ofCaptured octets).source 0 :=
  .message (Nat.zero_le _)

theorem le_length_of_read (h : Reader.message (Wire.ofCaptured octets).source 0 = .ok message n) :
    n ≤ octets.length :=
  (follows octets).le_size h

/-- Without the last of the octets that it takes there is no message: it would be read
    from the longer string as well, and take fewer octets of it. -/
theorem ofOctets_take (h : Reader.message (Wire.ofCaptured octets).source 0 = .ok message n)
    {count : Nat} (hcount : count < n) : ∃ cause, ofOctets (octets.take count) = .error cause := by
  cases hshort : Reader.message (Wire.ofCaptured (octets.take count)).source 0 with
  | error cause m => exact ⟨cause, ofOctets_error hshort⟩
  | ok other m =>
    have hlength := le_length_of_read hshort
    have hlong := read_append hshort (octets.drop count)
    rw [List.take_append_drop, h] at hlong
    cases hlong
    rw [List.length_take] at hlength
    omega

/-- A message that takes the first `n` octets of a string. Octets pay for each of its
    entries, it is the message of every longer string too, and no string that ends
    before those octets do holds a message. -/
structure Takes (message : Message) (octets : Octets) (n : Nat) : Prop where
  within : n ≤ octets.length
  questions : message.questions.length = message.header.questionCount.toNat
  answers : message.answers.length = message.header.answerCount.toNat
  authorities : message.authorities.length = message.header.authorityCount.toNat
  additionals : message.additionals.length = message.header.additionalCount.toNat
  paid : 12 + 5 * message.questions.length + 11 * (message.answers.length +
    message.authorities.length + message.additionals.length) ≤ n
  longer : ∀ more, ofOctets (octets ++ more) = .ok message
  shorter : ∀ count, count < n → ∃ cause, ofOctets (octets.take count) = .error cause

/-- **A message is what it takes.** Reading a string, whether or not it holds a message,
    goes as it does under watch, where no move, no slice and no subtraction is out of
    range. A message that is read is determined by the octets that it takes. -/
theorem takes_of_read (octets : Octets) :
    Watched.Follows Watched.message Reader.message (Wire.ofCaptured octets).source 0 ∧
      (∀ n, Watched.message octets.toArray 0 ≠ .error .outOfRange n) ∧
      ∀ message wire, (Wire.ofCaptured octets).read Reader.message = .ok message wire →
        message.Takes octets wire.position := by
  refine ⟨follows octets, (follows octets).ne_outOfRange, ?_⟩
  intro message wire hread
  have hmessage : Reader.message (Wire.ofCaptured octets).source 0 = .ok message wire.position :=
    Wire.read_inv hread
  obtain ⟨hquestions, hanswers, hauthorities, hadditionals, hpaid⟩ := Reader.message_inv hmessage
  rw [Nat.zero_add] at hpaid
  exact {
    within := le_length_of_read hmessage
    questions := hquestions
    answers := hanswers
    authorities := hauthorities
    additionals := hadditionals
    paid := hpaid
    longer := fun more => ofOctets_ok (read_append hmessage more)
    shorter := fun count hcount => ofOctets_take hmessage hcount }

/-- An answer with one address, whose owner is a pointer to the name asked for, and one
    octet behind it. -/
def oneAddressOctets : Octets :=
  [0x12, 0x34, 0x81, 0x80, 0, 1, 0, 1, 0, 0, 0, 0, 1, 97, 0, 0, 1, 0, 1,
    0xC0, 12, 0, 1, 0, 1, 0, 0, 14, 16, 0, 4, 192, 0, 2, 1, 0xFF]

/-- The message in these octets. -/
def oneAddress : Message where
  header := {
    id := 0x1234
    recursionDesired := true
    truncated := false
    authoritative := false
    opcode := 0
    isResponse := true
    code := .noError
    checkingDisabled := false
    authenticData := false
    reserved := false
    recursionAvailable := true
    questionCount := 1
    answerCount := 1
    authorityCount := 0
    additionalCount := 0 }
  questions := [⟨"a.", .a, 1⟩]
  answers := [.resource "a." 3600 (.a 0xC0000201#32)]
  authorities := []
  additionals := []

theorem takes_of_read_oneAddress :
    (Wire.ofCaptured oneAddressOctets).read Reader.message =
        .ok oneAddress { Wire.ofCaptured oneAddressOctets with position := 35 } ∧
      oneAddress.Takes oneAddressOctets 35 := by
  have hread : (Wire.ofCaptured oneAddressOctets).read Reader.message =
      .ok oneAddress { Wire.ofCaptured oneAddressOctets with position := 35 } := by decide +kernel
  exact ⟨hread, (takes_of_read oneAddressOctets).2.2 oneAddress _ hread⟩

end Message

end PassiveDns.Dns
