/-
  PassiveDns.Proofs.Capture.Blocks

  Blocks are read as they were written. Every block stands between its length and its length
  again, so the parser knows what to ask for (`reads_boxed`); whatever the type of the block is,
  what it yields is the frame, the link number or nothing that was written (`Body.reads`), and
  the header of a section is read as its order of octets in a section of either order
  (`Heading.reads`).
-/
import PassiveDns.Capture.Blocks
import PassiveDns.Proofs.Capture.Refills

namespace PassiveDns.Capture.Blocks

/-! ## What is written -/

/-- A block: its type, its length, its content, and its length again. -/
def boxed (bigEndian : Bool) (type : Nat) (content : Octets) : Octets :=
  words bigEndian [type, 12 + content.length] ++
    (content ++ words bigEndian [12 + content.length])

/-- Octets that are filled up to a multiple of four. -/
structure Padded where
  octets : Octets
  filling : Octets
  length_eq : octets.length + filling.length = padded octets.length

namespace Padded

/-- Padded octets as they stand in the file. -/
def written (value : Padded) : Octets :=
  value.octets ++ value.filling

@[simp] theorem length_written (value : Padded) :
    value.written.length = padded value.octets.length := by
  rw [written, List.length_append, value.length_eq]

end Padded

/-- A record of a name resolution that is not the end record. -/
structure NameRecord where
  type : UInt16
  value : Padded
  type_ne : type.toNat ≠ 0
  fits : value.octets.length < 65536

/-- A record as it stands in the file. -/
def NameRecord.written (bigEndian : Bool) (record : NameRecord) : Octets :=
  spell bigEndian 2 record.type.toNat ++
    (spell bigEndian 2 record.value.octets.length ++ record.value.written)

/-- The types of blocks that are told from each other. -/
def listed : List Nat :=
  [sectionType, 1, 3, 4, 5, 6, 10, 0xbad, 0x40000bad, 0x80000001]

/-- A block of a section, other than its header. -/
inductive Body where
  | interface (link reserved : UInt16) (longest : UInt32) (options : Octets)
  | simple (original : UInt32) (kept : Octets)
  | names (records : List NameRecord) (options : Octets)
  | statistics (index high low : UInt32) (options : Octets)
  | enhanced (index high low original : UInt32) (packet : Padded) (options : Octets)
  | secrets (kind : UInt32) (held : Padded) (options : Octets)
  | custom (copied : Bool) (enterprise : UInt32) (data : Octets)
  | process (number : UInt32) (options : Octets)
  | other (type : UInt32) (unlisted : type.toNat ∉ listed) (content : Octets)

namespace Body

/-- The type of a block. -/
def type : Body → Nat
  | interface .. => 1
  | simple .. => 3
  | names .. => 4
  | statistics .. => 5
  | enhanced .. => 6
  | secrets .. => 10
  | custom copied .. => if copied then 0xbad else 0x40000bad
  | process .. => 0x80000001
  | other type .. => type.toNat

/-- What stands between the two lengths of a block. -/
def content (bigEndian : Bool) : Body → Octets
  | interface link reserved longest options =>
    spell bigEndian 2 link.toNat ++ (spell bigEndian 2 reserved.toNat ++
      (words bigEndian [longest.toNat] ++ options))
  | simple original kept => words bigEndian [original.toNat] ++ kept
  | names records options =>
    records.flatMap (NameRecord.written bigEndian) ++ (List.replicate 4 0 ++ options)
  | statistics index high low options =>
    words bigEndian [index.toNat, high.toNat, low.toNat] ++ options
  | enhanced index high low original packet options =>
    words bigEndian [index.toNat, high.toNat, low.toNat, packet.octets.length,
      original.toNat] ++ (packet.written ++ options)
  | secrets kind held options =>
    words bigEndian [kind.toNat, held.octets.length] ++ (held.written ++ options)
  | custom _ enterprise data => words bigEndian [enterprise.toNat] ++ data
  | process number options => words bigEndian [number.toNat] ++ options
  | other _ _ content => content

/-- A block as it stands in the file. -/
def written (bigEndian : Bool) (body : Body) : Octets :=
  boxed bigEndian body.type (body.content bigEndian)

/-- What a block is read as. Of a simple packet only the length of the whole frame is told, and
    what was kept may be filled up. -/
def block : Body → Block
  | interface link .. => .interface link.toNat
  | simple original kept => .simple (kept.take original.toNat)
  | enhanced index high low _ packet _ =>
    .enhanced index.toNat (high.toNat * 4294967296 + low.toNat) packet.octets
  | _ => .other

end Body

/-- The header of a section, less the order of octets that it shows. -/
structure Heading where
  major : UInt16
  minor : UInt16
  high : UInt32
  low : UInt32
  options : Octets

namespace Heading

/-- What stands between the two lengths of a section header, the order of octets first. -/
def content (bigEndian : Bool) (heading : Heading) : Octets :=
  words bigEndian [orderMark] ++ (spell bigEndian 2 heading.major.toNat ++
    (spell bigEndian 2 heading.minor.toNat ++
      (words bigEndian [heading.high.toNat, heading.low.toNat] ++ heading.options)))

/-- A section header as it stands in the file. -/
def written (bigEndian : Bool) (heading : Heading) : Octets :=
  boxed bigEndian sectionType (heading.content bigEndian)

end Heading

/-! ## Blocks of any type -/

variable {bigEndian : Bool}

section Boxed

variable {type : Nat} {content : Octets} {value : Block}

@[simp] theorem length_boxed (bigEndian : Bool) (type : Nat) (content : Octets) :
    (boxed bigEndian type content).length = 12 + content.length := by
  simp only [boxed, List.length_append, length_words, List.length_cons, List.length_nil]
  omega

/-- Type, lengths and content of a block are found where they were written. -/
theorem fields_boxed (bigEndian : Bool) (htype : type < 256 ^ 4)
    (hfits : 12 + content.length < capacity) (more : Octets) :
    let octets := boxed bigEndian type content ++ more
    numberAt bigEndian octets 0 4 = type ∧ numberAt bigEndian octets 4 4 = 12 + content.length ∧
      octets.slice 8 content.length = content ∧
      numberAt bigEndian octets (8 + content.length) 4 = 12 + content.length := by
  have hlength : 12 + content.length < 256 ^ 4 := Nat.lt_trans hfits (by decide)
  dsimp only
  simp only [boxed, List.append_assoc]
  refine ⟨numberAt_words _ (i := 0) rfl htype _, numberAt_words _ (i := 1) rfl hlength _,
    slice_words _ [type, 12 + content.length] _ _, ?_⟩
  rw [numberAt_behind _ _ _ (by simp), length_words, numberAt_behind _ _ _ (by simp)]
  have hstart : 8 + content.length - 4 * [type, 12 + content.length].length - content.length =
      4 * 0 := by
    simp
  rw [hstart]
  exact numberAt_words _ rfl hlength more

/-- A block is read as what its content yields. -/
theorem reads_boxed {least : Nat} {inner : Octets → Nat → Nat → Content}
    (htype : type < 256 ^ 4) (hleast : least ≤ 12 + content.length)
    (hfits : 12 + content.length < capacity)
    (hinner : inner content (12 + content.length) (12 + content.length) = .block value) :
    Reads (framed bigEndian least inner) (boxed bigEndian type content) value := by
  constructor
  · intro more onHand hwhole
    rw [length_boxed] at hwhole ⊢
    obtain ⟨-, hlength, hcontent, hagain⟩ := fields_boxed bigEndian htype hfits more
    rw [framed, if_neg (by omega)]
    dsimp only
    rw [hlength, if_neg (by omega), if_neg (by omega), if_neg (by omega), Nat.add_sub_cancel_left,
      hcontent, hagain, hinner]
  · intro more onHand hpart
    rw [length_boxed] at hpart ⊢
    obtain ⟨-, hlength, -⟩ := fields_boxed bigEndian htype hfits more
    rw [framed]
    -- what is asked for is of the least length, then of the content, then of the length behind it
    split
    · exact ⟨_, rfl, by omega⟩
    · dsimp only
      rw [hlength, if_neg (by omega)]
      split
      all_goals exact ⟨_, rfl, by omega⟩

/-- The octets that a block of a type has at least, and the parser of its content. -/
def reader (bigEndian : Bool) (type : Nat) : Nat × (Octets → Nat → Nat → Content) :=
  if type = 1 then
    (20, fun content => agreeing (.interface (numberAt bigEndian content 0 2)) [])
  else if type = 3 then (16, fun content _ _ => simple bigEndian content)
  else if type = 4 then (12, names bigEndian)
  else if type = 5 then (24, fun _ => agreeing .other [])
  else if type = 6 then (32, enhanced bigEndian)
  else if type = 10 then (20, secrets bigEndian)
  else if type = 0xbad || type = 0x40000bad then (16, custom)
  else if type = 0x80000001 then (12, process)
  else (12, fun _ _ _ => .block .other)

/-- Custom blocks are of two types, which are read in the same way. -/
theorem reader_custom (copied : Bool) :
    reader bigEndian (if copied then 0xbad else 0x40000bad) = (16, custom) := by
  cases copied <;> rfl

theorem reader_unlisted {type : Nat} (h : type ∉ listed) :
    reader bigEndian type = (12, fun _ _ _ => .block .other) := by
  simp only [listed, List.mem_cons, List.not_mem_nil, or_false, not_or] at h
  simp [reader, h]

/-- A block that is not a section header is read by the parser for its type. -/
theorem block_of_type {data : Octets} {onHand : Nat} (henough : 4 ≤ onHand)
    (htype : numberAt bigEndian data 0 4 = type) (hsection : type ≠ sectionType) :
    block bigEndian data onHand =
      framed bigEndian (reader bigEndian type).1 (reader bigEndian type).2 data onHand := by
  rw [block, if_neg (Nat.not_lt.mpr henough)]
  dsimp only
  rw [htype, if_neg hsection, reader]
  split_ifs <;> rfl

theorem reads_block (htype : type < 256 ^ 4) (hsection : type ≠ sectionType)
    (hleast : (reader bigEndian type).1 ≤ 12 + content.length)
    (hfits : 12 + content.length < capacity)
    (hcontent : (reader bigEndian type).2 content (12 + content.length) (12 + content.length) =
      .block value) :
    Reads (block bigEndian) (boxed bigEndian type content) value := by
  have hfour : 4 ≤ (boxed bigEndian type content).length := by
    rw [length_boxed]
    omega
  refine (reads_boxed htype hleast hfits hcontent).of_least hfour ?_ ?_
  · intro data onHand hshort
    rw [block, if_pos hshort]
  · intro more onHand henough
    exact block_of_type henough (fields_boxed bigEndian htype hfits more).1 hsection

end Boxed

/-! ## Contents -/

/-- What is filled up within a block is shorter than the window. -/
theorem lt_of_padded_le {ahead count n : Nat} (h : ahead + padded count ≤ n) (hn : n < capacity) :
    count < capacity := by
  rw [padded] at h
  omega

theorem agreeing_same (block : Block) (rest : Octets) (length : Nat) :
    agreeing block rest length length = .block block :=
  if_pos rfl

theorem lacking_eq_zero {octets : Octets} {n : Nat} (h : n ≤ octets.length) :
    lacking octets n = 0 := by
  rw [lacking, List.length_take, Nat.min_eq_left h, Nat.sub_self]

theorem complete_zero (whole : Content) : complete 0 whole = whole :=
  if_pos rfl

/-- Padded data that is there is not asked for. -/
theorem holding_of_le {content : Octets} {ahead count : Nat} {unread : Octets} {whole : Content}
    (hwhole : ahead + padded count ≤ content.length) (hfits : content.length < capacity) :
    holding content ahead count unread whole = whole := by
  have hcount : count < capacity := lt_of_padded_le hwhole hfits
  have hsmall : ¬4294967291 ≤ count := by
    rw [capacity] at hcount
    omega
  rw [holding, if_neg hsmall, lacking_eq_zero hwhole, complete_zero]

@[simp] theorem NameRecord.length_written (bigEndian : Bool) (record : NameRecord) :
    (record.written bigEndian).length = 4 + padded record.value.octets.length := by
  simp only [NameRecord.written, List.length_append, length_spell, Padded.length_written]
  omega

/-- Octets that are all zero spell zero. -/
theorem numberAt_zeros (bigEndian : Bool) {octets : Octets} {count n : Nat} (hcount : count ≤ n)
    (hzeros : (octets.take n).all (· == 0) = true) : numberAt bigEndian octets 0 count = 0 := by
  have hzero : octets.slice 0 count = List.replicate (octets.slice 0 count).length 0 := by
    refine List.eq_replicate_iff.mpr ⟨rfl, fun b hb => ?_⟩
    rw [Octets.slice, List.drop_zero] at hb
    exact eq_of_beq (List.all_eq_true.mp hzeros b (List.take_subset_take_left _ hcount hb))
  rw [numberAt, hzero]
  generalize (octets.slice 0 count).length = length
  cases bigEndian with
  | true =>
    show Octets.toNatBE (List.replicate length 0) = 0
    induction length with
    | zero => rfl
    | succ length ih =>
      rw [List.replicate_succ, Octets.toNatBE_cons, ih]
      exact Nat.zero_mul _
  | false =>
    show Octets.toNatLE (List.replicate length 0) = 0
    induction length with
    | zero => rfl
    | succ length ih => exact congrArg (· * 256 + 0) ih

/-- A record of a name resolution is passed over. -/
theorem namesLack_record (record : NameRecord) (more : Octets) :
    namesLack bigEndian (record.written bigEndian ++ more) = namesLack bigEndian more := by
  have htype : numberAt bigEndian (record.written bigEndian ++ more) 0 2 = record.type.toNat := by
    rw [NameRecord.written, List.append_assoc]
    exact numberAt_spell _ record.type.toNat_lt _
  have hlength : numberAt bigEndian (record.written bigEndian ++ more) 2 2 =
      record.value.octets.length := by
    rw [NameRecord.written, List.append_assoc, List.append_assoc,
      numberAt_behind _ _ _ (by simp), length_spell]
    exact numberAt_spell _ record.fits _
  have hnotEnd : ¬((record.written bigEndian ++ more).take 4).all (· == 0) = true := by
    -- an end record is of type zero
    intro hzeros
    have hzero := numberAt_zeros bigEndian (by decide : 2 ≤ 4) hzeros
    exact record.type_ne (htype.symm.trans hzero)
  have hwhole : 4 + padded record.value.octets.length ≤
      (record.written bigEndian ++ more).length := by
    simp
  rw [namesLack, if_neg hnotEnd, lacking_eq_zero (by omega), lacking_eq_zero (by omega), hlength,
    lacking_eq_zero hwhole]
  simp only [ne_eq, not_true_eq_false, if_false]
  rw [← NameRecord.length_written bigEndian record, List.drop_left]

/-- Of a name resolution nothing lacks, whatever its options are. -/
theorem namesLack_records (records : List NameRecord) (options : Octets) :
    namesLack bigEndian (records.flatMap (NameRecord.written bigEndian) ++
      (List.replicate 4 0 ++ options)) = 0 := by
  induction records with
  | nil =>
    have hend : ((List.replicate 4 (0 : UInt8) ++ options).take 4).all (· == 0) = true := rfl
    rw [List.flatMap_nil, List.nil_append, namesLack, if_pos hend, lacking_eq_zero (by simp)]
  | cons record records ih => rw [List.flatMap_cons, List.append_assoc, namesLack_record, ih]

namespace Body

/-- The types of blocks fit four octets. -/
theorem type_lt (body : Body) : body.type < 256 ^ 4 := by
  cases body with
  | other type => exact type.toNat_lt
  | custom copied =>
    rw [type]
    split <;> decide
  | _ => exact of_decide_eq_true rfl

theorem type_ne_sectionType (body : Body) : body.type ≠ sectionType := by
  cases body with
  | other type unlisted =>
    rintro (hsection : type.toNat = sectionType)
    exact unlisted (hsection ▸ List.mem_cons_self)
  | custom copied =>
    rw [type]
    split <;> decide
  | _ => exact of_decide_eq_true rfl

/-- A block is as long as a block of its type is at least. -/
theorem least_le (body : Body) :
    (reader bigEndian body.type).1 ≤ 12 + (body.content bigEndian).length := by
  cases body with
  | custom copied =>
    rw [type, reader_custom, content, List.length_append, length_words, List.length_singleton]
    omega
  | other type unlisted =>
    rw [Body.type, reader_unlisted unlisted]
    exact Nat.le_add_right ..
  | process => exact Nat.le_add_right ..
  | _ =>
    simp only [type, reader, content, List.length_append, length_words, length_spell,
      List.length_cons, List.length_nil, if_true, Nat.reduceEqDiff, if_false]
    omega

/-- An enhanced packet is read as the octets that were captured, less what fills them up. -/
theorem enhanced_read (index high low original : UInt32) (packet : Padded) (options : Octets)
    (hlength : (content bigEndian (enhanced index high low original packet options)).length <
      capacity) (length : Nat) :
    Blocks.enhanced bigEndian (content bigEndian (enhanced index high low original packet options))
      length length = .block (block (enhanced index high low original packet options)) := by
  set octets := content bigEndian (enhanced index high low original packet options) with hoctets
  have hpadded : 20 + padded packet.octets.length ≤ octets.length := by
    simp [hoctets, content]
  have hcaptured : packet.octets.length < 256 ^ 4 :=
    Nat.lt_trans (lt_of_padded_le hpadded hlength) (by decide)
  have hindex : numberAt bigEndian octets (4 * 0) 4 = index.toNat :=
    numberAt_words _ rfl index.toNat_lt _
  have hhigh : numberAt bigEndian octets (4 * 1) 4 = high.toNat :=
    numberAt_words _ rfl high.toNat_lt _
  have hlow : numberAt bigEndian octets (4 * 2) 4 = low.toNat :=
    numberAt_words _ rfl low.toNat_lt _
  have hheld : numberAt bigEndian octets (4 * 3) 4 = packet.octets.length :=
    numberAt_words _ rfl hcaptured _
  have hpacket : octets.slice 20 packet.octets.length = packet.octets := by
    rw [hoctets, content, Padded.written, List.append_assoc]
    exact slice_words _ [_, _, _, _, _] _ _
  rw [Blocks.enhanced]
  dsimp -zeta only
  rw [hheld, hindex, hhigh, hlow, hpacket, holding_of_le hpadded hlength, agreeing_same, block]

/-- Secrets are passed over. -/
theorem secrets_read (kind : UInt32) (held : Padded) (options : Octets)
    (hlength : (content bigEndian (secrets kind held options)).length < capacity) (length : Nat) :
    Blocks.secrets bigEndian (content bigEndian (secrets kind held options)) length length =
      .block .other := by
  have hpadded : 8 + padded held.octets.length ≤
      (content bigEndian (secrets kind held options)).length := by
    simp [content]
  have hheld : numberAt bigEndian (content bigEndian (secrets kind held options)) 4 4 =
      held.octets.length := by
    have hfits : held.octets.length < 256 ^ 4 :=
      Nat.lt_trans (lt_of_padded_le hpadded hlength) (by decide)
    exact numberAt_words _ (i := 1) rfl hfits _
  rw [Blocks.secrets, hheld, holding_of_le hpadded hlength, agreeing_same]

/-- What stands between the two lengths is read as what was written there. -/
theorem content_block (body : Body) (hfits : 12 + (body.content bigEndian).length < capacity) :
    (reader bigEndian body.type).2 (body.content bigEndian)
      (12 + (body.content bigEndian).length) (12 + (body.content bigEndian).length) =
      .block body.block := by
  have hlength : (body.content bigEndian).length < capacity := by omega
  cases body with
  | interface link reserved longest options =>
    have hlink : numberAt bigEndian (content bigEndian (interface link reserved longest options))
        0 2 = link.toNat := numberAt_spell _ link.toNat_lt _
    show agreeing (.interface (numberAt bigEndian (content bigEndian _) 0 2)) [] _ _ = _
    rw [hlink, agreeing_same, block]
  | simple original kept =>
    have horiginal : numberAt bigEndian (content bigEndian (simple original kept)) 0 4 =
        original.toNat := numberAt_words _ (i := 0) rfl original.toNat_lt _
    show Blocks.simple bigEndian (content bigEndian _) = _
    rw [Blocks.simple, horiginal, content, slice_behind _ _ (by simp), length_words, block]
    rfl
  | names records options =>
    have hnone : namesLack bigEndian (content bigEndian (names records options)) = 0 :=
      namesLack_records records options
    show Blocks.names bigEndian (content bigEndian _) _ _ = _
    rw [Blocks.names, hnone, complete_zero]
    exact agreeing_same ..
  | statistics => exact agreeing_same ..
  | enhanced => exact enhanced_read _ _ _ _ _ _ hlength _
  | secrets => exact secrets_read _ _ _ hlength _
  | custom copied enterprise data =>
    rw [type, reader_custom]
    exact agreeing_same ..
  | process number options =>
    have hnumber : 4 ≤ (content bigEndian (process number options)).length := by
      simp [content]
    show Blocks.process (content bigEndian _) _ _ = _
    rw [Blocks.process, lacking_eq_zero hnumber, complete_zero]
    exact agreeing_same ..
  | other type unlisted octets =>
    rw [Body.type, reader_unlisted unlisted]
    rfl

/-- **A block is read as what was written in it**, if it is shorter than the window. -/
theorem reads (body : Body) (hfits : (body.written bigEndian).length < capacity) :
    Reads (Blocks.block bigEndian) (body.written bigEndian) body.block := by
  rw [written, length_boxed] at hfits
  exact reads_block body.type_lt body.type_ne_sectionType body.least_le hfits
    (body.content_block hfits)

end Body

/-! ## Section headers -/

/-- The type of a section header reads the same in both orders of octets. -/
theorem numberAt_sectionType (reading writing : Bool) (more : Octets) :
    numberAt reading (spell writing 4 sectionType ++ more) 0 4 = sectionType := by
  rw [numberAt_start _ (by simp)]
  cases reading <;> cases writing <;> decide

/-- The mark reads as itself in the order of octets in which it was written only. -/
theorem numberAt_orderMark (reading writing : Bool) (more : Octets) :
    numberAt reading (words writing [orderMark] ++ more) 0 4 = orderMark ↔ reading = writing := by
  rw [numberAt_start _ (by simp)]
  cases reading <;> cases writing <;> decide

namespace Heading

variable {writing : Bool}

theorem numberAt_type (heading : Heading) (reading : Bool) (more : Octets) :
    numberAt reading (heading.written writing ++ more) 0 4 = sectionType := by
  rw [written, boxed, words, List.flatMap_cons, List.append_assoc, List.append_assoc]
  exact numberAt_sectionType ..

theorem reads_own (heading : Heading) (hfits : (heading.written writing).length < capacity) :
    Reads sectionHeader (heading.written writing) (.sectionStart writing) := by
  rw [written, length_boxed] at hfits
  have hlength : 28 ≤ 12 + (heading.content writing).length := by
    simp [content]
    omega
  have htwelve : 12 ≤ (heading.written writing).length := by
    rw [written, length_boxed]
    omega
  have hframed : Reads (framed writing 28 fun _ _ _ => .block (.sectionStart writing))
      (heading.written writing) (.sectionStart writing) :=
    reads_boxed (by decide) hlength hfits rfl
  refine hframed.of_least htwelve ?_ ?_
  · intro data onHand hshort
    rw [sectionHeader, if_pos hshort]
  · intro more onHand henough
    have hmark (reading : Bool) :
        numberAt reading (heading.written writing ++ more) 8 4 = orderMark ↔ reading = writing := by
      rw [written, boxed, List.append_assoc, numberAt_behind _ _ _ (by simp), length_words, content,
        List.append_assoc, List.append_assoc]
      exact numberAt_orderMark ..
    rw [sectionHeader, if_neg (Nat.not_lt.mpr henough)]
    -- the order with the lowest octet first is tried first
    dsimp only
    cases writing with
    | false => rw [if_pos ((hmark false).mpr rfl)]
    | true =>
      rw [if_neg (fun h => Bool.noConfusion ((hmark false).mp h)), if_pos ((hmark true).mpr rfl)]

/-- **The header of a section is read as the order of octets in which it was written**, whatever
    the order was in the section before. -/
theorem reads (heading : Heading) (hfits : (heading.written writing).length < capacity)
    (reading : Bool) :
    Reads (Blocks.block reading) (heading.written writing) (.sectionStart writing) := by
  have hfour : 4 ≤ (heading.written writing).length := by
    rw [written, length_boxed]
    omega
  refine (heading.reads_own hfits).of_least hfour ?_ ?_
  · intro data onHand hshort
    rw [Blocks.block, if_pos hshort]
  · intro more onHand henough
    rw [Blocks.block, if_neg (Nat.not_lt.mpr henough)]
    exact if_pos (heading.numberAt_type reading more)

end Heading

end PassiveDns.Capture.Blocks
