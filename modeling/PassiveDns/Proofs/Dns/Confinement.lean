/-
  PassiveDns.Proofs.Dns.Confinement

  Which octets a record is read from. The length of its data is checked against the end
  of the message, and reading goes on behind that many octets; but names in the data, and
  the numbers behind such names, are read wherever they lead. So a record is determined
  by the octets up to the end of its data exactly if its owner, and its data where they
  hold a name, are found there (`record_confined_iff`). Data of the other types always
  are.
-/
import PassiveDns.Proofs.Dns.Consumption

namespace PassiveDns.Dns

/-! ## Octets in front of a place -/

namespace Source

variable {source other : Source} {stop : Nat}

/-- The source without the octets from `stop` on. -/
def upTo (source : Source) (stop : Nat) : Source :=
  { source with octets := source.octets.extract 0 stop }

/-- Another source is one of the same kind and has the same octets in front of `stop`. -/
structure AgreesUpTo (source : Source) (stop : Nat) (other : Source) : Prop where
  access : other.access = source.access
  octets : ∀ i < stop, other.octets[i]? = source.octets[i]?

theorem getElem?_upTo (source : Source) (stop i : Nat) :
    (source.upTo stop).octets[i]? = if i < stop then source.octets[i]? else none := by
  rw [upTo, Array.getElem?_extract]
  by_cases hi : i < stop
  · by_cases hsize : i < source.octets.size
    · rw [if_pos (by omega), if_pos hi, Nat.zero_add]
    · rw [if_neg (by omega), if_pos hi, Array.getElem?_eq_none (by omega)]
  · rw [if_neg (by omega), if_neg hi]

theorem AgreesUpTo.upTo_eq (h : source.AgreesUpTo stop other) :
    other.upTo stop = source.upTo stop := by
  have hoctets : (other.upTo stop).octets = (source.upTo stop).octets := by
    apply Array.ext_getElem?
    intro i
    rw [getElem?_upTo, getElem?_upTo]
    by_cases hi : i < stop
    · rw [if_pos hi, if_pos hi, h.octets i hi]
    · rw [if_neg hi, if_neg hi]
  show (⟨(other.upTo stop).octets, other.access⟩ : Source) = source.upTo stop
  rw [hoctets, h.access]
  rfl

theorem size_upTo (h : stop ≤ source.octets.size) : (source.upTo stop).octets.size = stop := by
  rw [upTo, Array.size_extract]
  omega

/-- With what was cut off put back it is the same. -/
theorem upTo_followedBy (source : Source) (stop : Nat) :
    (source.upTo stop).followedBy (source.octets.extract stop source.octets.size) = source := by
  have hoctets : source.octets.extract 0 stop ++ source.octets.extract stop source.octets.size =
      source.octets := by
    rw [Array.extract_append_extract, Nat.zero_min]
    exact Array.extract_eq_self_of_le (Nat.le_max_right _ _)
  show (⟨source.octets.extract 0 stop ++ _, source.access⟩ : Source) = source
  rw [hoctets]

/-- With anything else in its place it agrees. -/
theorem agreesUpTo_followedBy (h : stop ≤ source.octets.size) (more : Array UInt8) :
    source.AgreesUpTo stop ((source.upTo stop).followedBy more) where
  access := rfl
  octets := by
    intro i hi
    have hlt : i < (source.upTo stop).octets.size := by rwa [size_upTo h]
    show ((source.upTo stop).octets ++ more)[i]? = _
    rw [Array.getElem?_append_left hlt, getElem?_upTo, if_pos hi]

end Source

namespace Reader

variable {α β : Type} {source other : Source} {n m stop : Nat}

/-- A step finds all octets that it asks for in front of `stop`. -/
def Within (step : Reader α) (source : Source) (n stop : Nat) : Prop :=
  ¬RunsOut step (source.upTo stop) n

theorem Within.upTo_eq {step : Reader α} (h : Within step source n stop) (hstep : Settled step) :
    step source n = step (source.upTo stop) n := by
  have hsettled := hstep h (source.octets.extract stop source.octets.size)
  rwa [Source.upTo_followedBy] at hsettled

/-- What is read within some octets is read from them, whatever follows. -/
theorem Within.eq_of_agrees {step : Reader α} (h : Within step source n stop)
    (hstep : Settled step) (hagrees : source.AgreesUpTo stop other) :
    step other n = step source n := by
  have hother : Within step other n stop := by
    rw [Within, hagrees.upTo_eq]
    exact h
  rw [h.upTo_eq hstep, hother.upTo_eq hstep, hagrees.upTo_eq]

end Reader

/-! ## Records in two parts -/

/-- What stands in front of the data of a record. -/
structure RecordHead where
  owner : String
  type : UInt16
  cls : UInt16
  ttl : UInt32
  length : UInt16
deriving Repr, DecidableEq

/-- Data of the type hold a name. -/
def RecordType.naming : RecordType → Bool
  | .ns | .cname | .soa | .ptr | .mx | .srv => true
  | _ => false

namespace Reader

/-- Reads what stands in front of the data of a record. -/
def recordHead : Reader RecordHead := do
  let owner ← name
  let type ← word16
  let cls ← word16
  let ttl ← word32
  let length ← word16
  pure ⟨owner, type, cls, ttl, length⟩

/-- Reads the data of a record, and goes on behind them. -/
def recordRest (head : RecordHead) : Reader Record := do
  let start ← Reader.position
  let _ ← Reader.range start head.length.toNat
  let record ← match RecordType.ofNumber head.type with
    | .opt => pure (Record.options head.cls head.ttl head.length)
    | known => do
      let data ← Reader.recordData known start head.length
      pure (Record.resource head.owner head.ttl data)
  Reader.seek (start + head.length.toNat)
  pure record

theorem record_eq_head : Reader.record = recordHead >>= recordRest := by
  simp only [recordHead, bind_assoc, pure_bind]
  rfl

variable {α β : Type} {source other : Source} {n m start stop : Nat} {head : RecordHead}

/-! ## How far steps go -/

/-- A step takes at most `most` octets, and finds what it asks for where there are as many
    and the message has `far` octets in all. -/
structure Needs (step : Reader α) (most far : Nat) : Prop where
  enough : ∀ ⦃source n⦄, n + most ≤ source.octets.size → far ≤ source.octets.size →
    ¬RunsOut step source n
  reach : ∀ ⦃source n a m⦄, step source n = .ok a m → m ≤ n + most

theorem needs_pure (a : α) (far : Nat) : Needs (pure a) 0 far where
  enough := fun _ _ _ _ ⟨_, hfailed⟩ => by cases hfailed
  reach := by
    intro source n b m h
    cases h
    exact Nat.le_refl n

theorem Needs.bind {read : Reader α} {next : α → Reader β} {most mostNext far : Nat}
    (hread : Needs read most far) (hnext : ∀ a, Needs (next a) mostNext far) :
    Needs (read >>= next) (most + mostNext) far where
  enough := by
    intro source n hsize hfar hout
    rcases runsOut_bind_iff.mp hout with hfirst | ⟨a, m, hdone, hrest⟩
    · exact hread.enough (by omega) hfar hfirst
    · have hreach := hread.reach hdone
      exact (hnext a).enough (by omega) hfar hrest
  reach := by
    intro source n b k h
    obtain ⟨a, m, ha, hb⟩ := bind_inv h
    have hfirst := hread.reach ha
    have hsecond := (hnext a).reach hb
    omega

theorem Needs.mono {step : Reader α} {most more far : Nat} (h : Needs step most far)
    (hmore : most ≤ more) : Needs step more far where
  enough := fun _ _ hsize hfar => h.enough (by omega) hfar
  reach := fun _ _ _ _ hdone => Nat.le_trans (h.reach hdone) (by omega)

theorem needs_octet (far : Nat) : Needs Reader.octet 1 far where
  enough := fun source n hsize _ =>
    not_runsOut_of_ok (octet_ok (Array.getElem?_eq_getElem (i := n) (by omega)))
  reach := by
    intro source n b m h
    exact Nat.le_of_eq (octet_inv h).2

theorem needs_word16 (far : Nat) : Needs Reader.word16 2 far :=
  (needs_octet far).bind fun _ => (needs_octet far).bind fun _ => needs_pure _ far

theorem needs_word32 (far : Nat) : Needs Reader.word32 4 far :=
  (needs_octet far).bind fun _ => (needs_octet far).bind fun _ => (needs_octet far).bind fun _ =>
    (needs_octet far).bind fun _ => needs_pure _ far

/-- Behind the furthest place that a pointer names there is room for a whole name. -/
def farthest : Nat := 64 * 256 + (Name.maxLength + 2)

/-- Where there is room behind a name and behind all that pointers name, following the name
    finds what it asks for. -/
theorem walk_found {message : Array UInt8} {start jumps used : Nat}
    (hroom : start + (Name.maxLength - used + 2) ≤ message.size) (hfar : farthest ≤ message.size) :
    (Name.walk message start jumps used).labels ≠ .error .endOfBuffer := by
  rw [farthest] at hfar
  fun_induction Name.walk message start jumps used with
  | case1 start jumps used hb =>
    rw [Array.getElem?_eq_none_iff] at hb
    omega
  | case2 => exact fun h => by cases h
  | case3 start jumps used b hb hpointer hjumps hlo =>
    rw [Array.getElem?_eq_none_iff] at hlo
    omega
  | case4 start jumps used b hb hpointer hjumps lo hlo ih =>
    apply ih
    have hhi := b.toNat_lt
    have hlow := lo.toNat_lt
    rw [Name.target]
    omega
  | case5 => exact fun h => by cases h
  | case6 => exact fun h => by cases h
  | case7 => exact fun h => by cases h
  | case8 start jumps used b hb hpointer hreserved hzero hmax hend label rest ih =>
    have hrest := ih (by omega)
    intro h
    cases hlabels : rest.labels with
    | ok labels =>
      rw [hlabels] at h
      cases h
    | error cause =>
      rw [hlabels] at h
      cases h
      exact hrest hlabels
  | case9 start jumps used b hb hpointer hreserved hzero hmax hend => omega

theorem stop_le_of_spells {message : Array UInt8} {i jumps stop : Nat} {labels : List Octets}
    (h : Name.Spells message i labels jumps stop) : stop ≤ i + (Name.span labels + 2) := by
  induction h with
  | root => omega
  | label _ _ _ _ ih =>
    rw [Name.span_cons]
    omega
  | pointer => omega

theorem needs_name : Needs Reader.name (Name.maxLength + 2) farthest where
  enough := by
    rintro source n hsize hfar ⟨m, hfailed⟩
    have hfound : (Name.walk source.octets n 0 0).labels ≠ .error .endOfBuffer :=
      walk_found hsize hfar
    rw [name_walk] at hfailed
    cases hlabels : (Name.walk source.octets n 0 0).labels with
    | ok labels =>
      rw [hlabels] at hfailed
      cases hfailed
    | error cause =>
      rw [hlabels] at hfailed
      cases hfailed
      exact hfound hlabels
  reach := by
    intro source n text m h
    obtain ⟨labels, jumps, hspells, -, hspan, -⟩ := name_inv h
    have hstop := stop_le_of_spells hspells
    omega

theorem needs_recordHead : Needs recordHead 267 farthest :=
  needs_name.bind fun _ => (needs_word16 _).bind fun _ => (needs_word16 _).bind fun _ =>
    (needs_word32 _).bind fun _ => (needs_word16 _).bind fun _ => needs_pure _ _

theorem pays_recordHead : Pays recordHead 11 :=
  pays_name.bind fun _ => pays_word16.bind fun _ => pays_word16.bind fun _ =>
    pays_word32.bind fun _ => pays_word16.bind fun _ => pays_pure _

/-! ## Data -/

/-- The texts between two offsets of a message are found. -/
theorem not_runsOut_chunks {start stop : Nat} (h : stop ≤ source.octets.size) (n : Nat) :
    ¬RunsOut (Reader.chunks start stop) source n := by
  fun_induction Reader.chunks start stop generalizing n with
  | case1 start hlt ih =>
    intro hout
    obtain ⟨b, hb⟩ : ∃ b, source.octets[start]? = some b :=
      ⟨_, Array.getElem?_eq_getElem (by omega)⟩
    rcases runsOut_bind_iff.mp hout with hfirst | ⟨length, m, hdone, hrest⟩
    · exact not_runsOut_of_ok (octetAt_ok hb n) hfirst
    rcases runsOut_bind_iff.mp hrest with hchunk | ⟨chunk, k, hdone, hrest⟩
    · exact not_runsOut_of_ok (range_of_le (by omega) m) hchunk
    rcases runsOut_bind_iff.mp hrest with hothers | ⟨_, _, _, _, hfailed⟩
    · exact ih length k hothers
    · cases hfailed
  | case2 start hlt =>
    rintro ⟨m, hfailed⟩
    cases hfailed

/-- Data that hold no name are found if there are as many octets as their length says. -/
theorem not_runsOut_recordData {type : RecordType} {length : UInt16} (htype : type.naming = false)
    (hsize : start + length.toNat ≤ source.octets.size) :
    ¬RunsOut (Reader.recordData type start length) source start := by
  have hother : ∀ data : RecordData, ¬RunsOut (pure data) source start := by
    rintro data ⟨m, hfailed⟩
    cases hfailed
  cases type with
  | a =>
    by_cases hlength : length = 4
    · subst hlength
      rw [Reader.recordData, if_pos rfl]
      exact ((needs_word32 0).bind fun _ => needs_pure _ 0).enough hsize (Nat.zero_le _)
    · rw [Reader.recordData, if_neg hlength]
      exact hother _
  | aaaa =>
    by_cases hlength : length = 16
    · subst hlength
      rw [Reader.recordData, if_pos rfl, runsOut_bind_iff, not_or]
      refine ⟨not_runsOut_of_ok (range_of_le hsize start), ?_⟩
      rintro ⟨_, _, _, _, hfailed⟩
      cases hfailed
    · rw [Reader.recordData, if_neg hlength]
      exact hother _
  | txt =>
    rw [Reader.recordData, runsOut_bind_iff, not_or]
    refine ⟨not_runsOut_chunks hsize start, ?_⟩
    rintro ⟨_, _, _, _, hfailed⟩
    cases hfailed
  | ns => cases htype
  | cname => cases htype
  | soa => cases htype
  | ptr => cases htype
  | mx => cases htype
  | srv => cases htype
  | _ => exact hother _

/-- Data that hold a name take two names and five words at most. -/
theorem needs_recordData {type : RecordType} (htype : type.naming = true) (start : Nat)
    (length : UInt16) : Needs (Reader.recordData type start length) 534 farthest := by
  have hname : ∀ make : String → RecordData,
      Needs (Reader.name >>= fun host => pure (make host)) 257 farthest :=
    fun make => needs_name.bind fun host => needs_pure (make host) _
  have hword := needs_word16 farthest
  have hlong := needs_word32 farthest
  cases type with
  | ns => exact (hname .ns).mono (by omega)
  | cname => exact (hname .cname).mono (by omega)
  | ptr => exact (hname .ptr).mono (by omega)
  | mx => exact (hword.bind fun _ => hname _).mono (by omega)
  | srv =>
    exact (hword.bind fun _ => hword.bind fun _ => hword.bind fun _ => hname _).mono (by omega)
  | soa =>
    exact needs_name.bind fun _ => needs_name.bind fun _ => hlong.bind fun _ =>
      hlong.bind fun _ => hlong.bind fun _ => hlong.bind fun _ => hlong.bind fun _ =>
        needs_pure _ _
  | _ => cases htype

/-! ## Whole records -/

/-- Of what is behind the head of a record only data that hold a name can be missing. -/
theorem runsOut_recordRest_iff (hsize : start + head.length.toNat ≤ source.octets.size) :
    RunsOut (recordRest head) source start ↔ (RecordType.ofNumber head.type).naming = true ∧
      RunsOut (Reader.recordData (RecordType.ofNumber head.type) start head.length)
        source start := by
  have hbehind : ∀ (record : Record) (m : Nat), ¬RunsOut
      (Reader.seek (start + head.length.toNat) >>= fun _ => pure record) source m := by
    rintro record m ⟨k, hfailed⟩
    rw [bind_ok (seek_ok hsize m)] at hfailed
    cases hfailed
  have hnaming : RunsOut (Reader.recordData (RecordType.ofNumber head.type) start head.length)
      source start → (RecordType.ofNumber head.type).naming = true := by
    intro hout
    by_contra htype
    exact not_runsOut_recordData (Bool.eq_false_iff.mpr htype) hsize hout
  rw [and_iff_right_of_imp hnaming, RunsOut, recordRest, bind_ok (position_ok source start),
    bind_ok (range_of_le hsize start)]
  generalize RecordType.ofNumber head.type = type at hnaming ⊢
  have hdata : RunsOut (Reader.recordData type start head.length >>= fun data =>
      Reader.seek (start + head.length.toNat) >>= fun _ =>
        pure (Record.resource head.owner head.ttl data)) source start ↔
      RunsOut (Reader.recordData type start head.length) source start := by
    rw [runsOut_bind_iff]
    refine or_iff_left ?_
    rintro ⟨data, m, -, hrest⟩
    exact hbehind _ m hrest
  cases type with
  | opt => exact ⟨fun hrest => absurd hrest (hbehind _ start), fun hout => by cases hnaming hout⟩
  | _ => exact hdata

/-- Where there are far more octets than a record can take, reading it finds all. -/
theorem record_found (h : n + 66336 + farthest ≤ source.octets.size) :
    ¬RunsOut Reader.record source n := by
  rw [record_eq_head, runsOut_bind_iff, not_or]
  refine ⟨needs_recordHead.enough (by omega) (by omega), ?_⟩
  rintro ⟨head, start, hhead, hrest⟩
  have hreach := needs_recordHead.reach hhead
  have hlength := head.length.toNat_lt
  rw [runsOut_recordRest_iff (by omega)] at hrest
  exact (needs_recordData hrest.1 start head.length).enough (by omega) (by omega) hrest.2

/-- A record is found in front of the end of its data exactly if its head is, and also its data
    if they are of a type that holds a name. -/
theorem within_record_iff (hhead : recordHead source n = .ok head start)
    (hstop : start + head.length.toNat = stop) (hsize : stop ≤ source.octets.size) :
    Within Reader.record source n stop ↔ Within recordHead source n stop ∧
      ((RecordType.ofNumber head.type).naming = true →
        Within (Reader.recordData (RecordType.ofNumber head.type) start head.length)
          source start stop) := by
  rw [Within, record_eq_head, runsOut_bind_iff, not_or]
  refine and_congr_right fun hwithin => ?_
  have hheadCut : recordHead (source.upTo stop) n = .ok head start := by
    rw [← Within.upTo_eq hwithin pays_recordHead.settled, hhead]
  have hfits : start + head.length.toNat ≤ (source.upTo stop).octets.size := by
    rw [Source.size_upTo hsize, hstop]
  have hrest := runsOut_recordRest_iff hfits
  constructor
  · intro hnone htype hout
    exact hnone ⟨head, start, hheadCut, hrest.mpr ⟨htype, hout⟩⟩
  · rintro hdata ⟨_, _, hdone, hout⟩
    rw [hheadCut] at hdone
    cases hdone
    obtain ⟨htype, hout⟩ := hrest.mp hout
    exact hdata htype hout

/-- A record that is the same whatever follows `stop` is found in front of it: it is found with
    far more octets behind, and is the same with none. -/
theorem within_of_same (hn : n ≤ stop) (hsize : stop ≤ source.octets.size)
    (hsame : ∀ other, source.AgreesUpTo stop other → stop ≤ other.octets.size →
      Reader.record other n = Reader.record source n) : Within Reader.record source n stop := by
  have hcut := Source.size_upTo hsize
  have hsizes : ((source.upTo stop).followedBy (Array.replicate 100000 0)).octets.size =
      stop + 100000 := by
    show ((source.upTo stop).octets ++ _).size = _
    rw [Array.size_append, hcut, Array.size_replicate]
  have hlong := hsame _ (Source.agreesUpTo_followedBy hsize (Array.replicate 100000 0)) (by omega)
  have hshort := hsame (source.upTo stop) ⟨rfl, fun i hi => by
    rw [Source.getElem?_upTo, if_pos hi]⟩ (by omega)
  have hroom : n + 66336 + farthest ≤
      ((source.upTo stop).followedBy (Array.replicate 100000 0)).octets.size := by
    rw [hsizes, farthest, Name.maxLength]
    omega
  rintro ⟨m, hfailed⟩
  exact record_found hroom ⟨m, by rw [hlong, ← hshort, hfailed]⟩

/-- **What a record is read from.** A record whose data end at `stop` is the same in every
    message that has the same octets in front of `stop`, or is refused there for the same
    cause, exactly if its owner is found in front of `stop`, and also its data if they are
    of a type that holds a name. -/
theorem record_confined_iff (source : Source) (n start stop : Nat) (head : RecordHead)
    (hhead : recordHead source n = .ok head start) (hstop : start + head.length.toNat = stop)
    (hsize : stop ≤ source.octets.size) :
    (∀ other, source.AgreesUpTo stop other → stop ≤ other.octets.size →
        Reader.record other n = Reader.record source n) ↔
      Within recordHead source n stop ∧
        ((RecordType.ofNumber head.type).naming = true →
          Within (Reader.recordData (RecordType.ofNumber head.type) start head.length)
            source start stop) := by
  have hn : n ≤ stop := by
    have hforward := pays_recordHead.forward hhead
    omega
  rw [← within_record_iff hhead hstop hsize]
  constructor
  · exact within_of_same hn hsize
  · intro hwithin other hagrees _
    exact hwithin.eq_of_agrees pays_record.settled hagrees

/-- A name, a record of a mail exchange whose owner and host are spelled by way of it, and
    one octet behind the record. -/
def mailExchange : Source := (Wire.ofCaptured
  [1, 97, 0, 0xC0, 0, 0, 15, 0, 1, 0, 0, 0, 60, 0, 6, 0, 10, 1, 98, 0xC0, 0, 0xFF]).source

/-- The octet behind the record does not matter, nor does what may follow it. -/
theorem record_confined_mailExchange :
    recordHead mailExchange 3 = .ok ⟨"a.", 15, 1, 60, 6⟩ 15 ∧
      ∀ other, mailExchange.AgreesUpTo 21 other → 21 ≤ other.octets.size →
        Reader.record other 3 = .ok (.resource "a." 60 (.mx 10 "b.a.")) 21 := by
  have hhead : recordHead mailExchange 3 = .ok ⟨"a.", 15, 1, 60, 6⟩ 15 := by decide +kernel
  have howner : recordHead (mailExchange.upTo 21) 3 = .ok ⟨"a.", 15, 1, 60, 6⟩ 15 := by
    decide +kernel
  have hdata : Reader.recordData (RecordType.ofNumber 15) 15 6 (mailExchange.upTo 21) 15 =
      .ok (.mx 10 "b.a.") 21 := by
    decide +kernel
  have hrecord : Reader.record mailExchange 3 = .ok (.resource "a." 60 (.mx 10 "b.a.")) 21 := by
    decide +kernel
  refine ⟨hhead, fun other hagrees hother => ?_⟩
  rw [← hrecord]
  exact (record_confined_iff mailExchange 3 15 21 _ hhead rfl (by decide)).mpr
    ⟨not_runsOut_of_ok howner, fun _ => not_runsOut_of_ok hdata⟩ other hagrees hother

/-- A record of a name server without data, and behind it a name of one label of one
    octet. -/
def nameServer (letter : UInt8) : Source := (Wire.ofCaptured
  [0, 0, 2, 0, 1, 0, 0, 0, 0, 0, 0, 1, letter, 0]).source

/-- The record ends with its eleven octets, and there are no pointers; but its name server is
    the name behind it. -/
theorem record_from_behind_data :
    (nameServer 97).AgreesUpTo 11 (nameServer 98) ∧
      (nameServer 98).octets.size = (nameServer 97).octets.size ∧
      (nameServer 97).octets.toList.any Name.isPointer = false ∧
      recordHead (nameServer 97) 0 = .ok ⟨".", 2, 1, 0, 0⟩ 11 ∧
      Reader.record (nameServer 97) 0 = .ok (.resource "." 0 (.ns "a.")) 11 ∧
      Reader.record (nameServer 98) 0 = .ok (.resource "." 0 (.ns "b.")) 11 := by
  refine ⟨⟨rfl, by decide⟩, rfl, by decide, ?_, ?_, ?_⟩ <;> decide +kernel

end Reader

end PassiveDns.Dns
