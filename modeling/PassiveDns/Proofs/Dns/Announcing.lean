/-
  PassiveDns.Proofs.Dns.Announcing

  What a message that is written says of itself: how many entries its sections have, and how
  many octets the data of a record. The fields for these are words, and a record of a type
  that is not read is counted but not written. So each of them says what stands behind it
  modulo 2^16, and the counts also count what does not stand there (`announced_modulo`).
-/
import Mathlib.Data.List.Basic
import PassiveDns.Proofs.Dns.Calls
import PassiveDns.Proofs.Dns.Messages

namespace PassiveDns.Dns

open Name

/-! ## Steps that fail for a label only -/

/-- All that is remembered is of labels that can be written. -/
def Name.AllShort (suffixes : Suffixes) : Prop :=
  ∀ entry ∈ suffixes, ∃ labels, labels ≠ [] ∧ Plain labels ∧ Short labels ∧
    entry.1 = joined labels

theorem Name.AllShort.not_remembers {suffixes : Suffixes} (h : AllShort suffixes)
    {front rest : List String} {long : String} (hplain : Plain (front ++ long :: rest))
    (hlong : maxLabel < (Text.Utf8.ofString long).length) :
    ¬Writer.Remembers suffixes front (long :: rest) := by
  rintro ⟨suffix, hne, hsuffix, hsome⟩
  obtain ⟨i, hlookup⟩ := Option.isSome_iff_exists.mp hsome
  obtain ⟨labels, hlabels, hlabelsPlain, hshort, hkey⟩ := h _ (mem_of_lookup hlookup)
  have hwhole : suffix ++ long :: rest <:+ front ++ long :: rest :=
    List.suffix_append_self_iff.mpr hsuffix
  have hsame := joined_inj (hplain.of_suffix hwhole) hlabelsPlain
    (List.append_ne_nil_of_left_ne_nil hne _) hlabels hkey
  refine Nat.not_lt.mpr (hshort long ?_) hlong
  rw [← hsame]
  exact List.mem_append_right _ List.mem_cons_self

namespace Writer

/-- A step that appends to a draft if it is able to, and then `leaves` says what stands from
    where to where in every message that has the octets there. Else it finds a label that is
    too long. All that counts is what can be written of the names remembered. -/
structure Puts (step : Writer Unit) (able : Prop) (leaves : Array UInt8 → Nat → Nat → Prop) :
    Prop where
  appends : able → ∀ n before, AllShort before → ∃ octets after,
    step.Appends n before octets after ∧ AllShort after ∧
      ∀ message, Holds message n octets → Sound before message →
        Sound after message ∧ leaves message n (n + octets.length)
  refuses : ¬able → ∀ written before, AllShort before →
    ∃ wire, step (.draft written before) = .error .labelTooLong wire

namespace Puts

variable {step next : Writer Unit} {able ableNext : Prop}
  {leaves leavesNext : Array UInt8 → Nat → Nat → Prop}

theorem mono (h : Puts step able leaves) (hable : able ↔ ableNext)
    (hleaves : ∀ message start stop, leaves message start stop → leavesNext message start stop) :
    Puts step ableNext leavesNext := by
  refine ⟨fun hnext n before hbefore => ?_, fun hnot => h.refuses (hable.not.mpr hnot)⟩
  obtain ⟨octets, after, happends, hafter, hread⟩ := h.appends (hable.mpr hnext) n before hbefore
  refine ⟨octets, after, happends, hafter, fun message hholds hsound => ?_⟩
  obtain ⟨hsound', hleft⟩ := hread message hholds hsound
  exact ⟨hsound', hleaves _ _ _ hleft⟩

theorem bind (h : Puts step able leaves) (hnext : Puts next ableNext leavesNext) :
    Puts (step >>= fun _ => next) (able ∧ ableNext) fun message start stop =>
      ∃ middle, leaves message start middle ∧ leavesNext message middle stop where
  appends := by
    rintro ⟨hable, hableNext⟩ n before hbefore
    obtain ⟨first, between, hfirst, hbetween, hread⟩ := h.appends hable n before hbefore
    obtain ⟨second, after, hsecond, hafter, hread'⟩ :=
      hnext.appends hableNext (n + first.length) between hbetween
    refine ⟨first ++ second, after, hfirst.bind hsecond, hafter, fun message hholds hsound => ?_⟩
    obtain ⟨hsound', hleft⟩ := hread message hholds.left hsound
    obtain ⟨hsound'', hright⟩ := hread' message hholds.right hsound'
    rw [List.length_append, ← Nat.add_assoc]
    exact ⟨hsound'', _, hleft, hright⟩
  refuses := by
    intro hnot written before hbefore
    -- the second step is the one that fails where the first does not
    by_cases hable : able
    · obtain ⟨first, between, hfirst, hbetween, -⟩ := h.appends hable written.length before hbefore
      rw [bind_ok (hfirst written rfl)]
      exact hnext.refuses (fun hableNext => hnot ⟨hable, hableNext⟩) _ between hbetween
    · obtain ⟨wire, hwire⟩ := h.refuses hable written before hbefore
      refine ⟨wire, ?_⟩
      show EStateM.bind step _ _ = _
      rw [EStateM.bind, hwire]

theorem nothing : Puts (pure ()) True fun _ start stop => stop = start where
  appends := fun _ n before hbefore =>
    ⟨[], before, appends_pure n before, hbefore, fun _ _ hsound => ⟨hsound, rfl⟩⟩
  refuses := fun hnot => absurd trivial hnot

theorem of_appends {octets : Octets} (h : ∀ n before, step.Appends n before octets before) :
    Puts step True fun message start stop =>
      Holds message start octets ∧ stop = start + octets.length where
  appends := fun _ n before hbefore =>
    ⟨octets, before, h n before, hbefore, fun _ hholds hsound => ⟨hsound, hholds, rfl⟩⟩
  refuses := fun hnot => absurd trivial hnot

theorem octet (b : UInt8) : Puts (Writer.octet b) True fun message start stop =>
    Holds message start [b] ∧ stop = start + 1 :=
  of_appends (appends_octet b)

theorem octets (octets : Octets) : Puts (Writer.octets octets) True fun message start stop =>
    Holds message start octets ∧ stop = start + octets.length :=
  of_appends (appends_octets octets)

theorem word16 (w : UInt16) : Puts (Writer.word16 w) True fun message start stop =>
    Holds message start (Octets.ofWord16 w) ∧ stop = start + 2 :=
  of_appends (appends_word16 w)

theorem word32 (w : UInt32) : Puts (Writer.word32 w) True fun message start stop =>
    Holds message start (Octets.ofWord32 w) ∧ stop = start + 4 :=
  of_appends (appends_octets (Octets.ofWord32 w))

/-- A name is written and spelled, or has a label that is too long. -/
theorem name (text : String) : Puts (Writer.name text) (Short (Name.labels text))
    fun message start stop =>
      ∃ jumps, Spells message start (octetsOf (Name.labels text)) jumps stop where
  appends := by
    intro hshort n before hbefore
    obtain ⟨octets, after, -, happends, hread⟩ :=
      appends_labels (Name.labels text) (plain_labels text) hshort n before
    refine ⟨octets, after, happends, ?_, fun message hholds hsound => ?_⟩
    · intro entry hentry
      have hattempt := attempt (Name.labels text) (List.replicate n 0) before
      rw [happends _ List.length_replicate] at hattempt
      obtain hold | ⟨suffix, hne, hsuffix, hkey⟩ := hattempt.origin entry hentry
      · exact hbefore entry hold
      · exact ⟨suffix, hne, (plain_labels text).of_suffix hsuffix, hshort.of_suffix hsuffix, hkey⟩
    · have hspelled := hread message hholds (hsound _)
      obtain ⟨jumps, -, hspells⟩ := hspelled.spells
      exact ⟨hspelled.sound hsound, jumps, hspells⟩
  refuses := by
    intro hnot written before hbefore
    obtain ⟨front, long, rest, hlabels, hfront, hlong⟩ := exists_long hnot
    have hattempt := attempt (Name.labels text) written before
    have hplain := plain_labels text
    rw [Writer.name]
    -- no suffix that has the long label is remembered, so writing comes to it
    rw [hlabels] at hattempt hplain ⊢
    exact (hattempt.refused_iff hplain hfront hlong).mpr (hbefore.not_remembers hplain hlong)

/-- In front of a body stands the number of its octets, as far as a word can say it. -/
theorem measured (h : Puts step able leaves) : Puts (Writer.measured step) able
    fun message start stop => start + 2 ≤ stop ∧
      Holds message start (Octets.ofWord16 (UInt16.ofNat (stop - (start + 2)))) where
  appends := by
    intro hable n before hbefore
    obtain ⟨body, after, hbody, hafter, hread⟩ := h.appends hable (n + 2) before hbefore
    refine ⟨_, after, hbody.measured, hafter, fun message hholds hsound => ?_⟩
    have hstop : n + (Octets.ofWord16 (UInt16.ofNat body.length) ++ body).length -
        (n + 2) = body.length := by
      rw [List.length_append, Octets.length_ofWord16]
      omega
    refine ⟨(hread message hholds.right hsound).1, ?_, ?_⟩
    · rw [List.length_append, Octets.length_ofWord16]
      omega
    · rw [hstop]
      exact hholds.left
  refuses := by
    intro hnot written before hbefore
    obtain ⟨wire, hwire⟩ := h.refuses hnot (written ++ Octets.ofWord16 0) before hbefore
    refine ⟨wire, ?_⟩
    rw [Writer.measured, bind_ok (position_draft written before),
      bind_ok (appends_word16 0 _ before written rfl)]
    show EStateM.bind step _ _ = _
    rw [EStateM.bind, hwire]

end Puts

end Writer

theorem Holds.nat16At {message : Array UInt8} {n : Nat} {w : UInt16}
    (h : Holds message n (Octets.ofWord16 w)) : Octets.nat16At message.toList n = w.toNat := by
  obtain ⟨front, back, hmessage, rfl⟩ := h
  have hplace := Octets.nat16At_append_right front (Octets.ofWord16 w ++ back) 0
  rw [Nat.add_zero] at hplace
  rw [hmessage, hplace, Octets.nat16At_ofWord16]

/-! ## Entries one after the other -/

/-- Items stand one after the other from a position up to another. -/
inductive Row {α : Type} (stands : α → Nat → Nat → Prop) : Nat → List α → Nat → Prop
  | nil {start : Nat} : Row stands start [] start
  | cons {item : α} {rest : List α} {start middle stop : Nat} (first : stands item start middle)
    (others : Row stands middle rest stop) : Row stands start (item :: rest) stop

theorem Writer.Puts.each {α : Type} {step : α → Writer Unit} {able : α → Prop}
    {leaves : Array UInt8 → α → Nat → Nat → Prop} (items : List α)
    (h : ∀ item ∈ items, Puts (step item) (able item) fun message => leaves message item) :
    Puts (Writer.each step items) (∀ item ∈ items, able item) fun message start stop =>
      Row (leaves message) start items stop := by
  induction items with
  | nil =>
    refine nothing.mono (by simp) ?_
    rintro message start stop rfl
    exact .nil
  | cons item rest ih =>
    have hrest := ih fun other hother => h other (List.mem_cons_of_mem _ hother)
    refine ((h item List.mem_cons_self).bind hrest).mono List.forall_mem_cons.symm ?_
    rintro message start stop ⟨middle, hfirst, hothers⟩
    exact .cons hfirst hothers

/-! ## Records -/

/-- The names in the data of a record. -/
def RecordData.names : RecordData → List String
  | .ns host | .cname host | .ptr host | .mx _ host | .srv _ _ _ host => [host]
  | .soa primary mailbox _ _ _ _ _ => [primary, mailbox]
  | .a _ | .aaaa _ | .txt _ | .other _ _ => []

namespace Record

/-- Whether a record is written at all. Those of a type that is not read are not. -/
def encoded : Record → Bool
  | resource _ _ (.other _ _) => false
  | _ => true

/-- The name of a record, which for options is that of the root. -/
def ownerName : Record → String
  | resource owner _ _ => owner
  | options _ _ _ => ""

/-- The names that are written with a record. -/
def names : Record → List String
  | resource _ _ (.other _ _) => []
  | resource owner _ data => owner :: data.names
  | options _ _ _ => []

/-- Type, class and time to live, or what options have there. -/
def fixed : Record → Octets
  | resource _ ttl data =>
    Octets.ofWord16 data.type.toNumber ++ (Octets.ofWord16 1 ++ Octets.ofWord32 ttl)
  | options packetSize flags _ =>
    Octets.ofWord16 RecordType.opt.toNumber ++ (Octets.ofWord16 packetSize ++ Octets.ofWord32 flags)

/-- A record stands in a message from `start` up to `stop`: its name, what is fixed, and at
    `field` the number of octets behind that, which are its data, modulo 2^16. -/
structure StandsAt (record : Record) (message : Array UInt8) (start field stop : Nat) : Prop where
  head : ∃ jumps i, Spells message start (octetsOf (labels record.ownerName)) jumps i ∧
    Holds message i record.fixed ∧ field = i + 8
  behind : field + 2 ≤ stop
  length : Octets.nat16At message.toList field = (stop - (field + 2)) % 65536

/-- A record stands there, and says at some field how many octets its data have. -/
def Stands (message : Array UInt8) (record : Record) (start stop : Nat) : Prop :=
  ∃ field, record.StandsAt message start field stop

end Record

namespace Writer

/-- The data of a record behind the number of their octets. -/
def PutsData (data : RecordData) : Prop :=
  Puts (recordData data) (∀ name ∈ data.names, Short (Name.labels name))
    fun message start stop => start + 2 ≤ stop ∧
      Holds message start (Octets.ofWord16 (UInt16.ofNat (stop - (start + 2))))

variable {data : RecordData}

theorem putsData_of_octets (octets : Octets)
    (hwrite : recordData data =
      (word16 (UInt16.ofNat octets.length) >>= fun _ => Writer.octets octets))
    (hnames : data.names = []) : PutsData data := by
  rw [PutsData, hwrite, hnames]
  refine ((Puts.word16 _).bind (Puts.octets octets)).mono (by simp) ?_
  rintro message start stop ⟨middle, ⟨hlength, rfl⟩, -, rfl⟩
  rw [Nat.add_sub_cancel_left]
  exact ⟨Nat.le_add_right .., hlength⟩

theorem putsData_of_measured {body : Writer Unit} {able : Prop}
    {leaves : Array UInt8 → Nat → Nat → Prop} (h : Puts body able leaves)
    (hwrite : recordData data = measured body)
    (hnames : able ↔ ∀ name ∈ data.names, Short (Name.labels name)) : PutsData data := by
  rw [PutsData, hwrite]
  exact h.measured.mono hnames fun _ _ _ hleaves => hleaves

theorem puts_chunks (chunks : List String) :
    Puts (Writer.chunks chunks) True fun _ start stop => start ≤ stop := by
  induction chunks with
  | nil => exact Puts.nothing.mono Iff.rfl fun _ _ _ h => Nat.le_of_eq h.symm
  | cons chunk rest ih =>
    refine ((Puts.octet _).bind ((Puts.octets _).bind ih)).mono (by simp) ?_
    rintro message start stop ⟨middle, ⟨-, rfl⟩, next, ⟨-, rfl⟩, hrest⟩
    omega

/-- The data of every type that is read. -/
theorem putsData (h : ∀ type length, data ≠ .other type length) : PutsData data := by
  cases data with
  | a address =>
    refine putsData_of_octets (Octets.ofNatBE 4 address.toNat) ?_ rfl
    rw [Octets.length_ofNatBE]
    rfl
  | aaaa address =>
    refine putsData_of_octets (Octets.ofNatBE 16 address.toNat) ?_ rfl
    rw [Octets.length_ofNatBE]
    rfl
  | ns host => exact putsData_of_measured (Puts.name host) rfl (by simp [RecordData.names])
  | cname host => exact putsData_of_measured (Puts.name host) rfl (by simp [RecordData.names])
  | ptr host => exact putsData_of_measured (Puts.name host) rfl (by simp [RecordData.names])
  | mx preference host =>
    exact putsData_of_measured ((Puts.word16 preference).bind (Puts.name host)) rfl
      (by simp [RecordData.names])
  | srv priority weight port host =>
    exact putsData_of_measured ((Puts.word16 priority).bind ((Puts.word16 weight).bind
      ((Puts.word16 port).bind (Puts.name host)))) rfl (by simp [RecordData.names])
  | soa primary mailbox serial refresh retry expire minimum =>
    exact putsData_of_measured ((Puts.name primary).bind ((Puts.name mailbox).bind
      ((Puts.word32 serial).bind ((Puts.word32 refresh).bind ((Puts.word32 retry).bind
        ((Puts.word32 expire).bind (Puts.word32 minimum))))))) rfl (by simp [RecordData.names])
  | txt chunks => exact putsData_of_measured (puts_chunks chunks) rfl (by simp [RecordData.names])
  | other type length => exact absurd rfl (h type length)

/-- What is fixed of a record. -/
theorem puts_fixed (type cls : UInt16) (ttl : UInt32) :
    Puts (word16 type >>= fun _ => word16 cls >>= fun _ => word32 ttl) True
      fun message start stop => Holds message start
        (Octets.ofWord16 type ++ (Octets.ofWord16 cls ++ Octets.ofWord32 ttl)) ∧
        stop = start + 8 := by
  refine Puts.of_appends fun n before => ?_
  exact (appends_word16 type n before).bind ((appends_word16 cls _ before).bind
    (appends_octets (Octets.ofWord32 ttl) _ before))

theorem puts_record {record : Record} (h : record.encoded = true) :
    Puts (Writer.record record) (∀ name ∈ record.names, Short (Name.labels name))
      fun message => Record.Stands message record := by
  cases record with
  | resource owner ttl data =>
    have hdata : ∀ type length, data ≠ .other type length := by
      rintro type length rfl
      cases h
    have hwrite : Writer.record (.resource owner ttl data) = (name owner >>= fun _ =>
        (word16 data.type.toNumber >>= fun _ => word16 1 >>= fun _ => word32 ttl) >>= fun _ =>
          recordData data) := by
      cases data with
      | other type length => exact absurd rfl (hdata type length)
      | _ => simp only [bind_assoc]; rfl
    have hnames : (Record.resource owner ttl data).names = owner :: data.names := by
      cases data with
      | other type length => exact absurd rfl (hdata type length)
      | _ => rfl
    rw [hwrite, hnames]
    refine ((Puts.name owner).bind ((puts_fixed _ 1 ttl).bind (putsData hdata))).mono (by simp) ?_
    rintro message start stop ⟨i, ⟨jumps, howner⟩, field, ⟨hfixed, hfield⟩, hstop, hlength⟩
    exact ⟨field, ⟨jumps, i, howner, hfixed, hfield⟩, hstop,
      hlength.nat16At.trans UInt16.toNat_ofNat'⟩
  | options packetSize flags length =>
    have hwrite : Writer.record (.options packetSize flags length) = (octet 0 >>= fun _ =>
        (word16 RecordType.opt.toNumber >>= fun _ => word16 packetSize >>= fun _ =>
          word32 flags) >>= fun _ => word16 0) := by
      simp only [bind_assoc]
      rfl
    rw [hwrite]
    refine ((Puts.octet 0).bind ((puts_fixed _ packetSize flags).bind (Puts.word16 0))).mono
      (by simp [Record.names]) ?_
    rintro message start stop ⟨i, ⟨hroot, rfl⟩, field, ⟨hfixed, hfield⟩, hlength, rfl⟩
    refine ⟨field, ⟨0, start + 1, .root hroot.head, hfixed, hfield⟩, Nat.le_refl _, ?_⟩
    rw [Nat.sub_self]
    exact hlength.nat16At

end Writer

/-! ## Messages -/

namespace Question

/-- A question stands in a message: its name, its type and its class. -/
def Stands (message : Array UInt8) (question : Question) (start stop : Nat) : Prop :=
  ∃ jumps i, Spells message start (octetsOf (labels question.name)) jumps i ∧
    Holds message i (Octets.ofWord16 question.type.toNumber ++ Octets.ofWord16 question.cls) ∧
    stop = i + 4

end Question

theorem Writer.puts_question (question : Question) :
    Puts (Writer.question question) (Short (Name.labels question.name))
      fun message => Question.Stands message question := by
  have hfixed : Puts (word16 question.type.toNumber >>= fun _ => word16 question.cls) True
      fun message start stop => Holds message start
        (Octets.ofWord16 question.type.toNumber ++ Octets.ofWord16 question.cls) ∧
        stop = start + 4 := by
    refine Puts.of_appends fun n before => ?_
    exact (appends_word16 question.type.toNumber n before).bind
      (appends_word16 question.cls _ before)
  refine ((Puts.name question.name).bind hfixed).mono (by simp) ?_
  rintro message start stop ⟨i, ⟨jumps, hname⟩, hholds, hstop⟩
  exact ⟨jumps, i, hname, hholds, hstop⟩

/-- Records that are not written leave nothing. -/
theorem Writer.each_encoded (records : List Record) :
    Writer.each Writer.record records =
      Writer.each Writer.record (records.filter Record.encoded) := by
  induction records with
  | nil => rfl
  | cons record rest ih =>
    by_cases h : record.encoded = true
    · rw [List.filter_cons_of_pos h, Writer.each, Writer.each, ih]
    · rw [List.filter_cons_of_neg h, Writer.each, ih]
      cases record with
      | options => exact absurd rfl h
      | resource owner ttl data =>
        cases data with
        | other => exact pure_bind _ _
        | _ => exact absurd rfl h

namespace Message

/-- The names that are written with a message. -/
def names (message : Message) : List String :=
  message.questions.map Question.name ++ message.records.flatMap Record.names

/-- The number that a message says at `i` its records in a section are. -/
structure Counts (octets : Octets) (i : Nat) (records : List Record) : Prop where
  count : octets.nat16At i = records.length % 65536
  /-- So many of them are written exactly if the others are what is lost modulo 2^16. -/
  count_iff : octets.nat16At i = (records.filter Record.encoded).length ↔
    (records.filter fun record => !record.encoded).length = 65536 * (records.length / 65536)

/-- What a message says of its sections and of the data of its records, and what there is. -/
structure Announces (message : Message) (octets : Octets) : Prop where
  questions : octets.nat16At 4 = message.questions.length % 65536
  answers : Counts octets 6 message.answers
  authorities : Counts octets 8 message.authorities
  additionals : Counts octets 10 message.additionals
  /-- The questions and the records that are written stand one after the other up to the end. -/
  entries : ∃ questionsEnd answersEnd authoritiesEnd,
    Row (Question.Stands octets.toArray) 12 message.questions questionsEnd ∧
    Row (Record.Stands octets.toArray) questionsEnd (message.answers.filter Record.encoded)
      answersEnd ∧
    Row (Record.Stands octets.toArray) answersEnd (message.authorities.filter Record.encoded)
      authoritiesEnd ∧
    Row (Record.Stands octets.toArray) authoritiesEnd
      (message.additionals.filter Record.encoded) octets.length

end Message

/-- The octets of a header. -/
def Header.octets (header : Header) : Octets :=
  Octets.ofWord16 header.id ++ ([UInt8.ofNat header.highFlags, UInt8.ofNat header.lowFlags] ++
    (Octets.ofWord16 header.questionCount ++ (Octets.ofWord16 header.answerCount ++
      (Octets.ofWord16 header.authorityCount ++ Octets.ofWord16 header.additionalCount))))

theorem Writer.appends_header (header : Header) (n : Nat) (suffixes : Suffixes) :
    Appends (Writer.header header) n suffixes header.octets suffixes := by
  rw [Writer.header_eq]
  refine (appends_word16 header.id n suffixes).bind ?_
  refine (appends_octets _ _ suffixes).bind ?_
  refine (appends_word16 header.questionCount _ suffixes).bind ?_
  refine (appends_word16 header.answerCount _ suffixes).bind ?_
  refine (appends_word16 header.authorityCount _ suffixes).bind ?_
  exact appends_word16 header.additionalCount _ suffixes

namespace Message

/-- Records that are not written have no names to write. -/
theorem forall_names_encoded {records : List Record} {p : String → Prop} :
    (∀ record ∈ records.filter Record.encoded, ∀ name ∈ record.names, p name) ↔
      ∀ record ∈ records, ∀ name ∈ record.names, p name := by
  refine ⟨fun h record hrecord name hname => ?_, fun h record hrecord =>
    h record (List.mem_filter.mp hrecord).1⟩
  refine h record (List.mem_filter.mpr ⟨hrecord, ?_⟩) name hname
  cases record with
  | options => rfl
  | resource owner ttl data =>
    cases data with
    | other => cases hname
    | _ => rfl

/-- A message is written with its counts, or a label of its names is too long. -/
theorem puts_message (message : Message) :
    Writer.Puts (Writer.message message) (∀ name ∈ message.names, Short (labels name))
      fun octets start stop => Holds octets start message.withCounts.header.octets ∧
        ∃ questionsEnd answersEnd authoritiesEnd,
          Row (Question.Stands octets) (start + 12) message.questions questionsEnd ∧
          Row (Record.Stands octets) questionsEnd (message.answers.filter Record.encoded)
            answersEnd ∧
          Row (Record.Stands octets) answersEnd (message.authorities.filter Record.encoded)
            authoritiesEnd ∧
          Row (Record.Stands octets) authoritiesEnd
            (message.additionals.filter Record.encoded) stop := by
  -- the records are written in one go, so they are told apart by their sections first
  have hrecords (records : List Record) := Writer.Puts.each (records.filter Record.encoded)
    fun record hrecord => Writer.puts_record (List.mem_filter.mp hrecord).2
  rw [Writer.message, records, Writer.each_append, Writer.each_append, Writer.each_encoded,
    Writer.each_encoded message.authorities, Writer.each_encoded message.additionals]
  refine ((Writer.Puts.of_appends (Writer.appends_header message.withCounts.header)).bind
    ((Writer.Puts.each message.questions fun question _ => Writer.puts_question question).bind
      (((hrecords message.answers).bind (hrecords message.authorities)).bind
        (hrecords message.additionals)))).mono ?_ ?_
  · simp only [names, records, forall_names_encoded, List.forall_mem_append, List.forall_mem_map,
      List.forall_mem_flatMap, true_and]
  · rintro octets start stop ⟨middle, ⟨hheader, rfl⟩, questionsEnd, hquestions, authoritiesEnd,
      ⟨answersEnd, hanswers, hauthorities⟩, hadditionals⟩
    exact ⟨hheader, questionsEnd, answersEnd, authoritiesEnd, hquestions, hanswers, hauthorities,
      hadditionals⟩

theorem allShort_nil : AllShort [] := fun _ hentry => absurd hentry List.not_mem_nil

/-- Nothing but a label that is too long keeps a message from being written. -/
theorem toOctets_of_not_short {message : Message}
    (h : ¬∀ name ∈ message.names, Short (labels name)) :
    message.toOctets = .error .labelTooLong := by
  obtain ⟨wire, hwire⟩ := message.puts_message.refuses h [] [] allShort_nil
  have hwrite : Writer.message message Wire.empty = .error .labelTooLong wire := hwire
  rw [toOctets, hwrite]

theorem counts_of_holds {octets : Octets} {i : Nat} {records : List Record}
    (h : Holds octets.toArray i (Octets.ofWord16 (UInt16.ofNat records.length))) :
    Counts octets i records := by
  have hcount : octets.nat16At i = records.length % 65536 := h.nat16At.trans UInt16.toNat_ofNat'
  refine ⟨hcount, ?_⟩
  have hparts := List.length_eq_length_filter_add (l := records) Record.encoded
  rw [hcount]
  omega

/-- What is written announces what stands in it. -/
theorem announces_of_short {message : Message} (h : ∀ name ∈ message.names, Short (labels name)) :
    ∃ octets, message.toOctets = .ok octets ∧ message.Announces octets := by
  obtain ⟨octets, after, happends, -, hread⟩ := message.puts_message.appends h 0 [] allShort_nil
  have hwrite : Writer.message message Wire.empty = .ok () (.draft octets after) := happends [] rfl
  obtain ⟨-, hheader, hentries⟩ := hread octets.toArray (Holds.whole octets) (sound_nil _)
  rw [Nat.zero_add] at hentries
  have hcounts := hheader.right.right
  refine ⟨octets, by rw [toOctets, hwrite]; rfl, ?_⟩
  exact {
    questions := hcounts.left.nat16At.trans UInt16.toNat_ofNat'
    answers := counts_of_holds hcounts.right.left
    authorities := counts_of_holds hcounts.right.right.left
    additionals := counts_of_holds hcounts.right.right.right
    entries := by simpa using hentries }

/-- **What a message says of itself.** A message is written unless one of its names has a label
    that is too long; nothing else is refused. It says how many entries its sections have and
    how many octets the data of a record, each modulo 2^16; and of its records it also counts
    those that are of an unread type and not written. -/
theorem announced_modulo (message : Message) :
    ((∃ octets, message.toOctets = .ok octets) ↔ ∀ name ∈ message.names, Short (labels name)) ∧
      (∀ cause, message.toOctets = .error cause → cause = .labelTooLong) ∧
      ∀ octets, message.toOctets = .ok octets → message.Announces octets := by
  by_cases hshort : ∀ name ∈ message.names, Short (labels name)
  · obtain ⟨octets, hok, hannounces⟩ := announces_of_short hshort
    rw [hok]
    refine ⟨iff_of_true ⟨octets, rfl⟩ hshort, ?_, ?_⟩
    · intro cause h
      cases h
    · intro other h
      obtain rfl := Except.ok.inj h
      exact hannounces
  · have herror := toOctets_of_not_short hshort
    rw [herror]
    refine ⟨iff_of_false ?_ hshort, ?_, ?_⟩
    · rintro ⟨octets, h⟩
      cases h
    · intro cause h
      exact (Except.error.inj h).symm
    · intro octets h
      cases h

/-- One answer, of a type that is not read. -/
def unread : Message where
  header := default
  questions := []
  answers := [.resource "a" 0 (.other 99 3)]
  authorities := []
  additionals := []

/-- One answer, of texts. -/
def ofTexts (chunks : List String) : Message where
  header := default
  questions := []
  answers := [.resource "" 0 (.txt chunks)]
  authorities := []
  additionals := []

/-- Texts are written behind the number of their octets modulo 2^16. -/
theorem length_ofTexts {chunks : List String}
    (h : ∀ chunk ∈ chunks, (Text.Utf8.ofString chunk).length ≤ 255) :
    ∃ octets, (ofTexts chunks).toOctets = .ok octets ∧
      octets.nat16At 21 = span (octetsOf chunks) % 65536 ∧
      octets.length = 23 + span (octetsOf chunks) := by
  rw [← RecordData.length_chunkOctets]
  -- the header, the root as owner, and the type, class and time to live
  have hfront : ∃ front : Octets, front.length = 21 ∧ Writer.message (ofTexts chunks) Wire.empty =
      .ok () (.draft (front ++ (Octets.ofWord16
        (UInt16.ofNat (RecordData.chunkOctets chunks).length) ++
          RecordData.chunkOctets chunks)) []) := by
    have htexts : Writer.Appends (Writer.measured (Writer.chunks chunks)) 21 [] _ [] :=
      (RecordData.appends_chunks h 23 []).measured
    have hrecord : Writer.Appends (Writer.record (.resource "" 0 (.txt chunks))) 12 [] _ [] :=
      (Writer.appends_octet 0 12 []).bind
        ((Writer.appends_word16 RecordType.txt.toNumber 13 []).bind
          ((Writer.appends_word16 1 15 []).bind
            ((Writer.appends_octets (Octets.ofWord32 0) 17 []).bind htexts)))
    have hmessage := (Writer.appends_header (ofTexts chunks).withCounts.header 0 []).bind
      (hrecord.bind (Writer.appends_pure _ []))
    have hheader : (ofTexts chunks).withCounts.header = unread.withCounts.header := rfl
    rw [List.append_nil, hheader] at hmessage
    exact ⟨[0, 0, 0, 0, 0, 0, 0, 1, 0, 0, 0, 0, 0, 0, 16, 0, 1, 0, 0, 0, 0], rfl, hmessage [] rfl⟩
  obtain ⟨front, hlength, hdone⟩ := hfront
  refine ⟨front ++ (Octets.ofWord16 (UInt16.ofNat (RecordData.chunkOctets chunks).length) ++
    RecordData.chunkOctets chunks), by rw [toOctets, hdone]; rfl, ?_, ?_⟩
  · have hplace := Octets.nat16At_append_right front (Octets.ofWord16
      (UInt16.ofNat (RecordData.chunkOctets chunks).length) ++ RecordData.chunkOctets chunks) 0
    rw [hlength, Octets.nat16At_ofWord16, UInt16.toNat_ofNat'] at hplace
    exact hplace
  · rw [List.length_append, List.length_append, hlength, Octets.length_ofWord16]
    omega

/-- A record that is not written is counted all the same, in a message that ends behind its
    header; and texts of 2^16 octets stand behind a length of zero. -/
theorem counted_unread_wrapped_texts :
    (unread.toOctets = .ok [0, 0, 0, 0, 0, 0, 0, 1, 0, 0, 0, 0] ∧
      Octets.nat16At [0, 0, 0, 0, 0, 0, 0, 1, 0, 0, 0, 0] 6 = 1 ∧
      unread.answers.filter Record.encoded = []) ∧
    ∃ octets, (ofTexts (List.replicate 65536 "")).toOctets = .ok octets ∧
      octets.nat16At 21 = 0 ∧ octets.length = 23 + 65536 := by
  have hheader : Writer.message unread Wire.empty =
      .ok () (.draft unread.withCounts.header.octets []) :=
    Writer.bind_ok (Writer.appends_header unread.withCounts.header 0 [] [] rfl)
  have hempty : ∀ chunk ∈ List.replicate 65536 "", (Text.Utf8.ofString chunk).length ≤ 255 := by
    intro chunk hchunk
    rw [List.eq_of_mem_replicate hchunk]
    decide
  have hspan : span (octetsOf (List.replicate 65536 "")) = 65536 := by
    rw [octetsOf, List.map_replicate, span, List.map_replicate, List.sum_replicate_nat]
    rfl
  obtain ⟨octets, hdone, hcount, hlength⟩ := length_ofTexts hempty
  rw [hspan] at hcount hlength
  refine ⟨⟨?_, rfl, rfl⟩, octets, hdone, hcount, hlength⟩
  rw [toOctets, hheader]
  rfl

end Message

end PassiveDns.Dns
