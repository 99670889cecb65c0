/-
  PassiveDns.Proofs.Dns.Records

  Records are read as they were written. Data of every kind are written behind
  the number of their octets and are read from these.
-/
import PassiveDns.Proofs.Dns.Carrying

namespace PassiveDns.Dns

open Name (Sound)

/-! ## Records that can be written and read -/

namespace RecordData

/-- Data whose names fit, or whose texts fit behind an octet for their length and
    together behind a word for theirs. Data of an unread type are not written. -/
def Fits : RecordData → Prop
  | a _ => True
  | aaaa _ => True
  | ns host => Name.Fits host
  | cname host => Name.Fits host
  | ptr host => Name.Fits host
  | mx _ host => Name.Fits host
  | srv _ _ _ host => Name.Fits host
  | soa primary mailbox _ _ _ _ _ => Name.Fits primary ∧ Name.Fits mailbox
  | txt chunks =>
    (∀ chunk ∈ chunks, (Text.Utf8.ofString chunk).length ≤ 255) ∧
      Name.span (Name.octetsOf chunks) ≤ 65535
  | other _ _ => False

instance : DecidablePred Fits
  | a _ => inferInstanceAs (Decidable True)
  | aaaa _ => inferInstanceAs (Decidable True)
  | ns host => inferInstanceAs (Decidable (Name.Fits host))
  | cname host => inferInstanceAs (Decidable (Name.Fits host))
  | ptr host => inferInstanceAs (Decidable (Name.Fits host))
  | mx _ host => inferInstanceAs (Decidable (Name.Fits host))
  | srv _ _ _ host => inferInstanceAs (Decidable (Name.Fits host))
  | soa primary mailbox _ _ _ _ _ =>
    inferInstanceAs (Decidable (Name.Fits primary ∧ Name.Fits mailbox))
  | txt chunks =>
    inferInstanceAs (Decidable ((∀ chunk ∈ chunks, (Text.Utf8.ofString chunk).length ≤ 255) ∧
      Name.span (Name.octetsOf chunks) ≤ 65535))
  | other _ _ => inferInstanceAs (Decidable False)

/-- The data with their names as reading gives them. -/
def normalised : RecordData → RecordData
  | ns host => ns (Name.normalised host)
  | cname host => cname (Name.normalised host)
  | ptr host => ptr (Name.normalised host)
  | mx preference host => mx preference (Name.normalised host)
  | srv priority weight port host => srv priority weight port (Name.normalised host)
  | soa primary mailbox serial refresh retry expire minimum =>
    soa (Name.normalised primary) (Name.normalised mailbox) serial refresh retry expire minimum
  | data => data

/-- Wherever data are written, they come behind a word for the number of their
    octets, and are read from these in their normalised form. -/
def Carried (data : RecordData) : Prop :=
  ∀ n before, ∃ octets after, octets.length ≤ 65535 ∧
    (Writer.recordData data).Appends n before
      (Octets.ofWord16 (UInt16.ofNat octets.length) ++ octets) after ∧
    ∀ source : Source, Holds source.octets (n + 2) octets → Sound before source.octets →
      Sound after source.octets ∧
      ∃ m, Reader.recordData data.type (n + 2) (UInt16.ofNat octets.length) source (n + 2) =
        .ok data.normalised m

end RecordData

namespace Record

/-- Records whose owner and data fit, and options without data. -/
def Fits : Record → Prop
  | resource owner _ data => Name.Fits owner ∧ data.Fits
  | options _ _ length => length = 0

instance : DecidablePred Fits
  | resource owner _ data => inferInstanceAs (Decidable (Name.Fits owner ∧ data.Fits))
  | options _ _ length => inferInstanceAs (Decidable (length = 0))

/-- The record with its names as reading gives them. -/
def normalised : Record → Record
  | resource owner ttl data => resource (Name.normalised owner) ttl data.normalised
  | options packetSize flags length => options packetSize flags length

end Record

/-! ## Data -/

namespace RecordData

/-- Data that are read without regard to their length. -/
theorem carried_of_carries {data : RecordData} {write : Writer Unit} {read : Reader RecordData}
    {size : Nat} (h : Carries write read data.normalised size) (hsize : size ≤ 65535)
    (hwrite : Writer.recordData data = Writer.measured write)
    (hread : ∀ start length, Reader.recordData data.type start length = read) :
    data.Carried := by
  intro n before
  obtain ⟨octets, after, hlength, happends, hcarried⟩ := h (n + 2) before
  refine ⟨octets, after, Nat.le_trans hlength hsize, ?_, fun source hholds hsound => ?_⟩
  · rw [hwrite]
    exact happends.measured
  · obtain ⟨hafter, hvalue⟩ := hcarried source hholds hsound
    rw [hread]
    exact ⟨hafter, _, hvalue⟩

/-- Data of a fixed size. -/
theorem carried_of_size {data : RecordData} (octets : Octets) (hsize : octets.length ≤ 65535)
    (hwrite : Writer.recordData data =
      (Writer.word16 (UInt16.ofNat octets.length) >>= fun _ => Writer.octets octets))
    (hread : ∀ (source : Source) start, Holds source.octets start octets →
      ∃ m, Reader.recordData data.type start (UInt16.ofNat octets.length) source start =
        .ok data.normalised m) :
    data.Carried := by
  intro n before
  refine ⟨octets, before, hsize, ?_, fun source hholds hsound => ⟨hsound, hread source _ hholds⟩⟩
  rw [hwrite]
  exact (Writer.appends_word16 _ n before).bind (Writer.appends_octets octets (n + 2) before)

theorem carried_a (address : IPv4) : (a address).Carried := by
  apply carried_of_size (Octets.ofNatBE 4 address.toNat)
  · rw [Octets.length_ofNatBE]
    omega
  · rw [Octets.length_ofNatBE]
    rfl
  · intro source start hholds
    -- The four octets of the address, which are read as one word.
    have hword := Reader.word32_ok (a := UInt8.ofNat (address.toNat >>> 24))
      (b := UInt8.ofNat (address.toNat >>> 16)) (c := UInt8.ofNat (address.toNat >>> 8))
      (d := UInt8.ofNat (address.toNat >>> 0)) hholds
    rw [Octets.length_ofNatBE]
    refine ⟨start + 4, ?_⟩
    show (Reader.word32 >>= _) source start = _
    rw [Reader.bind_ok hword]
    show EStateM.Result.ok (a (BitVec.ofNat 32 _)) _ = _
    rw [Octets.toNat_word32_eq_toNatBE]
    show EStateM.Result.ok (a (BitVec.ofNat 32 (Octets.ofNatBE 4 address.toNat).toNatBE)) _ = _
    rw [Octets.ofNat_toNatBE (by decide)]
    rfl

theorem carried_aaaa (address : IPv6) : (aaaa address).Carried := by
  apply carried_of_size (Octets.ofNatBE 16 address.toNat)
  · rw [Octets.length_ofNatBE]
    omega
  · rw [Octets.length_ofNatBE]
    rfl
  · intro source start hholds
    have hrange := Reader.range_ok hholds start
    rw [Octets.length_ofNatBE] at hrange
    rw [Octets.length_ofNatBE]
    refine ⟨start, ?_⟩
    show (Reader.range start 16 >>= _) source start = _
    rw [Reader.bind_ok hrange, Octets.ofNat_toNatBE (by decide)]
    rfl

/-! ## Texts -/

/-- The octets of texts, each behind an octet for its length. -/
def chunkOctets (chunks : List String) : Octets :=
  chunks.flatMap fun chunk =>
    UInt8.ofNat (Text.Utf8.ofString chunk).length :: Text.Utf8.ofString chunk

theorem chunkOctets_cons (chunk : String) (rest : List String) :
    chunkOctets (chunk :: rest) =
      UInt8.ofNat (Text.Utf8.ofString chunk).length ::
        (Text.Utf8.ofString chunk ++ chunkOctets rest) := by
  rw [chunkOctets, List.flatMap_cons, List.cons_append, ← chunkOctets]

theorem length_chunkOctets (chunks : List String) :
    (chunkOctets chunks).length = Name.span (Name.octetsOf chunks) := by
  induction chunks with
  | nil => rfl
  | cons chunk rest ih =>
    rw [chunkOctets_cons, List.length_cons, List.length_append, ih, Name.octetsOf_cons,
      Name.span_cons]
    omega

theorem appends_chunks {chunks : List String}
    (h : ∀ chunk ∈ chunks, (Text.Utf8.ofString chunk).length ≤ 255) (n : Nat)
    (suffixes : Suffixes) :
    Writer.Appends (Writer.chunks chunks) n suffixes (chunkOctets chunks) suffixes := by
  induction chunks generalizing n with
  | nil => exact Writer.appends_pure n suffixes
  | cons chunk rest ih =>
    have hrest := ih (fun other hother => h other (List.mem_cons_of_mem _ hother))
    rw [Writer.chunks, List.take_of_length_le (h chunk List.mem_cons_self), chunkOctets_cons]
    exact (Writer.appends_octet _ n suffixes).bind
      ((Writer.appends_octets _ _ suffixes).bind (hrest _))

theorem chunks_ok {chunks : List String}
    (h : ∀ chunk ∈ chunks, (Text.Utf8.ofString chunk).length ≤ 255) {source : Source}
    {start stop : Nat} (hholds : Holds source.octets start (chunkOctets chunks))
    (hstop : stop = start + (chunkOctets chunks).length) (n : Nat) :
    Reader.chunks start stop source n = .ok chunks n := by
  induction chunks generalizing start with
  | nil =>
    have hend : stop = start := hstop
    rw [Reader.chunks, dif_neg (Nat.not_lt.mpr (Nat.le_of_eq hend))]
    rfl
  | cons chunk rest ih =>
    have hchunk := h chunk List.mem_cons_self
    have hlength : (UInt8.ofNat (Text.Utf8.ofString chunk).length).toNat =
        (Text.Utf8.ofString chunk).length := by
      rw [Octets.toNat_ofNat]
      omega
    rw [chunkOctets_cons] at hholds
    rw [chunkOctets_cons, List.length_cons, List.length_append] at hstop
    have hnext : min (start + 1 + (Text.Utf8.ofString chunk).length) stop =
        start + 1 + (Text.Utf8.ofString chunk).length := by omega
    have hrest := ih (fun other hother => h other (List.mem_cons_of_mem _ hother))
      hholds.tail.right (by omega)
    rw [Reader.chunks, dif_pos (by omega), Reader.bind_ok (Reader.octetAt_ok hholds.head n),
      hlength, hnext, Nat.add_sub_cancel_left, Reader.bind_ok (Reader.range_ok hholds.tail.left n),
      Reader.bind_ok hrest, Text.Utf8.toStringLossy_ofString]
    rfl

theorem carried_txt {chunks : List String} (h : (txt chunks).Fits) : (txt chunks).Carried := by
  obtain ⟨hchunks, hspan⟩ := h
  rw [← length_chunkOctets] at hspan
  intro n before
  refine ⟨chunkOctets chunks, before, hspan, (appends_chunks hchunks (n + 2) before).measured,
    fun source hholds hsound => ⟨hsound, n + 2, ?_⟩⟩
  have hlength : (UInt16.ofNat (chunkOctets chunks).length).toNat =
      (chunkOctets chunks).length := by
    rw [UInt16.toNat_ofNat']
    omega
  show (Reader.chunks _ _ >>= _) source (n + 2) = _
  rw [Reader.bind_ok (chunks_ok hchunks hholds (by rw [hlength]) (n + 2))]
  rfl

/-! ## Names -/

/-- Data of every kind are read as they were written. -/
theorem carried_of_fits {data : RecordData} (h : data.Fits) : data.Carried := by
  cases data with
  | a address => exact carried_a address
  | aaaa address => exact carried_aaaa address
  | ns host =>
    exact carried_of_carries ((carries_name h).map ns) (by omega) rfl fun _ _ => rfl
  | cname host =>
    exact carried_of_carries ((carries_name h).map cname) (by omega) rfl fun _ _ => rfl
  | ptr host =>
    exact carried_of_carries ((carries_name h).map ptr) (by omega) rfl fun _ _ => rfl
  | mx preference host =>
    exact carried_of_carries ((Carries.word16 preference).bind ((carries_name h).map _))
      (by omega) rfl fun _ _ => rfl
  | srv priority weight port host =>
    exact carried_of_carries ((Carries.word16 priority).bind ((Carries.word16 weight).bind
      ((Carries.word16 port).bind ((carries_name h).map _)))) (by omega) rfl fun _ _ => rfl
  | soa primary mailbox serial refresh retry expire minimum =>
    exact carried_of_carries ((carries_name h.1).bind ((carries_name h.2).bind
      ((Carries.word32 serial).bind ((Carries.word32 refresh).bind ((Carries.word32 retry).bind
        ((Carries.word32 expire).bind ((Carries.word32 minimum).map _)))))))
      (by omega) rfl fun _ _ => rfl
  | txt chunks => exact carried_txt h
  | other type length => exact absurd h id

end RecordData

/-! ## Whole records -/

/-- The end of reading a record: the length of its data, the data, and the place
    behind them. -/
def Reader.recordBody (owner : String) (type cls : UInt16) (ttl : UInt32) : Reader Record := do
  let length ← Reader.word16
  let start ← Reader.position
  let _ ← Reader.range start length.toNat
  let record ← match RecordType.ofNumber type with
    | .opt => pure (Record.options cls ttl length)
    | known => do
      let data ← Reader.recordData known start length
      pure (Record.resource owner ttl data)
  Reader.seek (start + length.toNat)
  pure record

theorem Reader.record_eq :
    Reader.record = (Reader.name >>= fun owner => Reader.word16 >>= fun type =>
      Reader.word16 >>= fun cls => Reader.word32 >>= fun ttl =>
        Reader.recordBody owner type cls ttl) := rfl

/-- A record of any type but that of the options holds data. -/
theorem Reader.recordBody_known {owner : String} {number cls : UInt16} {ttl : UInt32}
    {type : RecordType} (hnumber : RecordType.ofNumber number = type) (htype : type ≠ .opt) :
    Reader.recordBody owner number cls ttl = (do
      let length ← Reader.word16
      let start ← Reader.position
      let _ ← Reader.range start length.toNat
      let data ← Reader.recordData type start length
      Reader.seek (start + length.toNat)
      pure (Record.resource owner ttl data)) := by
  rw [Reader.recordBody, hnumber]
  cases type with
  | opt => exact absurd rfl htype
  | _ => rfl

theorem RecordData.ofNumber_type {data : RecordData} (h : data.Fits) :
    RecordType.ofNumber data.type.toNumber = data.type ∧ data.type ≠ .opt := by
  cases data with
  | other => exact absurd h id
  | _ => exact ⟨rfl, by intro h; cases h⟩

/-- Behind the fixed part of a record stand its data, from which the record is
    read, wherever reading them stops. -/
theorem RecordData.Carried.carries {data : RecordData} (hdata : data.Carried) (hfits : data.Fits)
    (owner : String) (cls : UInt16) (ttl : UInt32) :
    Carries (Writer.recordData data) (Reader.recordBody owner data.type.toNumber cls ttl)
      (.resource owner ttl data.normalised) 65537 := by
  intro n before
  obtain ⟨octets, after, hsize, happends, hread⟩ := hdata n before
  refine ⟨_, after, ?_, happends, fun source hholds hsound => ?_⟩
  · rw [List.length_append, Octets.length_ofWord16]
    omega
  have hoctets : Holds source.octets (n + 2) octets := hholds.right
  obtain ⟨hafter, m, hvalue⟩ := hread source hoctets hsound
  refine ⟨hafter, ?_⟩
  have hlength : (UInt16.ofNat octets.length).toNat = octets.length := by
    rw [UInt16.toNat_ofNat']
    omega
  have hword := Reader.word16_ok hholds.left
  rw [Octets.word16_ofNat] at hword
  obtain ⟨hnumber, htype⟩ := ofNumber_type hfits
  rw [Reader.recordBody_known hnumber htype, Reader.bind_ok hword,
    Reader.bind_ok (Reader.position_ok source _), hlength,
    Reader.bind_ok (Reader.range_ok hoctets _), Reader.bind_ok hvalue,
    Reader.bind_ok (Reader.seek_ok hoctets.le_size m), List.length_append, ← Nat.add_assoc]
  rfl

/-- Options without data. -/
theorem carries_options (owner : String) (packetSize : UInt16) (flags : UInt32) :
    Carries (Writer.word16 0) (Reader.recordBody owner RecordType.opt.toNumber packetSize flags)
      (.options packetSize flags 0) 2 := by
  intro n before
  refine ⟨Octets.ofWord16 0, before, Nat.le_refl 2, Writer.appends_word16 0 n before,
    fun source hholds hsound => ⟨hsound, ?_⟩⟩
  have hall : Holds source.octets n (Octets.ofWord16 0 ++ []) := by rwa [List.append_nil]
  have hnone : Holds source.octets (n + 2) [] := hall.right
  have hrange : Reader.range (n + 2) (UInt16.toNat 0) source (n + 2) = .ok [] (n + 2) :=
    Reader.range_ok hnone (n + 2)
  have hseek : Reader.seek (n + 2 + UInt16.toNat 0) source (n + 2) = .ok () (n + 2) :=
    Reader.seek_ok hnone.le_size (n + 2)
  have hword := Reader.word16_ok hholds
  rw [Octets.word16_ofNat] at hword
  rw [Reader.recordBody, Reader.bind_ok hword, Reader.bind_ok (Reader.position_ok source _),
    Reader.bind_ok hrange]
  show (Reader.seek _ >>= _) source (n + 2) = _
  rw [Reader.bind_ok hseek]
  rfl

/-- A name without labels. -/
theorem carries_root : Carries (Writer.octet 0) Reader.name "." 1 := by
  intro n before
  refine ⟨[0], before, Nat.le_refl 1, Writer.appends_octet 0 n before,
    fun source hholds hsound => ⟨hsound, ?_⟩⟩
  have hroot : Name.Spells source.octets n (Name.octetsOf []) 0 (n + 1) := .root hholds.head
  exact Reader.name_ok hroot (Nat.zero_le _) (Nat.zero_le _)

/-- Records are read as they were written, their names normalised. -/
theorem carries_record {record : Record} (h : record.Fits) :
    Carries (Writer.record record) Reader.record record.normalised 65801 := by
  rw [Reader.record_eq]
  cases record with
  | resource owner ttl data =>
    obtain ⟨howner, hdata⟩ := h
    have hwrite : Writer.record (.resource owner ttl data) = (Writer.name owner >>= fun _ =>
        Writer.word16 data.type.toNumber >>= fun _ => Writer.word16 1 >>= fun _ =>
          Writer.word32 ttl >>= fun _ => Writer.recordData data) := by
      cases data with
      | other => exact absurd hdata id
      | _ => rfl
    rw [hwrite]
    refine Carries.mono (256 + (2 + (2 + (4 + 65537)))) ?_ (by omega)
    refine (carries_name howner).bind ?_
    refine (Carries.word16 data.type.toNumber).bind ?_
    refine (Carries.word16 1).bind ?_
    refine (Carries.word32 ttl).bind ?_
    exact (RecordData.carried_of_fits hdata).carries hdata (Name.normalised owner) 1 ttl
  | options packetSize flags length =>
    obtain rfl : length = 0 := h
    refine Carries.mono (1 + (2 + (2 + (4 + 2)))) ?_ (by omega)
    refine carries_root.bind ?_
    refine (Carries.word16 RecordType.opt.toNumber).bind ?_
    refine (Carries.word16 packetSize).bind ?_
    refine (Carries.word32 flags).bind ?_
    exact carries_options "." packetSize flags

end PassiveDns.Dns
