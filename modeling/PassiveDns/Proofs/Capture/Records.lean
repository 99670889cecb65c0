/-
  PassiveDns.Proofs.Capture.Records

  Files of the classic format are read as they were written: the header gives back its layout
  and link number, and each record its frame at its time (`reads_record`), whichever the order
  of octets and the unit of time is (`records_read_back`).
-/
import PassiveDns.Proofs.Capture.Readout
import PassiveDns.Proofs.Capture.Refills

namespace PassiveDns.Capture.Classic

/-! ## What is written -/

/-- The units of the fraction of a second. -/
def Layout.unitsPerSecond (layout : Layout) : Nat :=
  if layout.nanoseconds then 1000000000 else 1000000

/-- The number that tells the unit of time, and the order of octets by how it is spelled. -/
def Layout.mark (layout : Layout) : Nat :=
  if layout.nanoseconds then 0xa1b23c4d else 0xa1b2c3d4

/-- A record of a file: a frame that fits the window, when it was captured, and how long it was
    before it was cut. -/
structure Record (layout : Layout) where
  seconds : UInt32
  fraction : Nat
  original : UInt32
  octets : Octets
  fraction_lt : fraction < layout.unitsPerSecond
  fits : 16 + octets.length < capacity

namespace Record

variable {layout : Layout}

/-- The numbers that stand in front of the octets. -/
def fields (record : Record layout) : List Nat :=
  [record.seconds.toNat, record.fraction, record.octets.length, record.original.toNat]

/-- A record as it stands in the file. -/
def written (record : Record layout) : Octets :=
  words layout.bigEndian record.fields ++ record.octets

/-- The nanoseconds of a record. -/
def nanos (record : Record layout) : Nat :=
  if layout.nanoseconds then record.fraction else record.fraction * 1000

/-- The frame of a record, at its exact time. -/
def frame (record : Record layout) : Frame :=
  ⟨record.octets, some ⟨record.seconds.toNat, record.nanos⟩⟩

end Record

/-- What stands in front of the records. Of it only the mark and the link number are read. -/
structure Heading where
  major : UInt16
  minor : UInt16
  zone : UInt32
  accuracy : UInt32
  longest : UInt32
  number : Nat

/-- A heading as it stands in the file, the mark first. -/
def Heading.written (layout : Layout) (heading : Heading) : Octets :=
  words layout.bigEndian [layout.mark] ++ (spell layout.bigEndian 2 heading.major.toNat ++
    (spell layout.bigEndian 2 heading.minor.toNat ++ words layout.bigEndian
      [heading.zone.toNat, heading.accuracy.toNat, heading.longest.toNat, heading.number]))

/-- A file: a heading and records. -/
def contents (layout : Layout) (heading : Heading) (records : List (Record layout)) : Octets :=
  heading.written layout ++ records.flatMap Record.written

/-! ## What is read -/

theorem missingFor_eq_none {onHand : Nat} {sizes : List Nat} (h : sizes.sum ≤ onHand) :
    missingFor onHand sizes = none := by
  induction sizes generalizing onHand with
  | nil => rfl
  | cons size sizes ih =>
    rw [List.sum_cons] at h
    rw [missingFor, if_neg (by omega)]
    exact ih (by omega)

theorem missingFor_eq_some {onHand : Nat} {sizes : List Nat} (h : onHand < sizes.sum) :
    ∃ count, missingFor onHand sizes = some count ∧ onHand + count ≤ sizes.sum := by
  induction sizes generalizing onHand with
  | nil => cases h
  | cons size sizes ih =>
    rw [List.sum_cons] at h ⊢
    rw [missingFor]
    split
    · exact ⟨size - onHand, rfl, by omega⟩
    · have hless : onHand - size < sizes.sum := by omega
      obtain ⟨count, hcount, hle⟩ := ih hless
      exact ⟨count, hcount, by omega⟩

variable {layout : Layout}

/-- The layout is told by the mark, whichever way it is spelled. -/
theorem ofMagic?_mark (layout : Layout) :
    Layout.ofMagic? (numberAt false (words layout.bigEndian [layout.mark]) 0 4) = some layout := by
  obtain ⟨bigEndian, nanoseconds⟩ := layout
  cases bigEndian <;> cases nanoseconds <;> decide

theorem nanosOf_fraction (record : Record layout) :
    nanosOf layout record.fraction = record.nanos ∧ record.nanos < 1000000000 := by
  have hfraction := record.fraction_lt
  rw [Layout.unitsPerSecond] at hfraction
  rw [nanosOf, Record.nanos]
  split at hfraction
  · rename_i hnanos
    rw [if_pos hnanos, if_pos hnanos]
    exact ⟨rfl, hfraction⟩
  · rename_i hnanos
    rw [if_neg hnanos, if_neg hnanos]
    omega

/-- Every second that a record can tell is one of the calendar. -/
theorem ofParts?_nanos (record : Record layout) :
    Timestamp.ofParts? record.seconds.toNat record.nanos =
      some ⟨record.seconds.toNat, record.nanos⟩ := by
  have hnanos := (nanosOf_fraction record).2
  have hseconds := record.seconds.toNat_lt
  rw [Timestamp.ofParts?, Timestamp.minSeconds, Timestamp.maxSeconds, if_neg (by omega),
    if_neg (by omega)]

@[simp] theorem length_record (entry : Record layout) :
    entry.written.length = 16 + entry.octets.length := by
  rw [Record.written, List.length_append, length_words]
  rfl

/-- The fields of a record are found where they were written. -/
theorem fields_written (entry : Record layout) (more : Octets) :
    numberAt layout.bigEndian (entry.written ++ more) (4 * 0) 4 = entry.seconds.toNat ∧
      numberAt layout.bigEndian (entry.written ++ more) (4 * 1) 4 = entry.fraction ∧
      numberAt layout.bigEndian (entry.written ++ more) (4 * 2) 4 = entry.octets.length ∧
      (entry.written ++ more).slice 16 entry.octets.length = entry.octets := by
  have hseconds : entry.seconds.toNat < 256 ^ 4 := entry.seconds.toNat_lt
  have hfraction : entry.fraction < 256 ^ 4 := by
    have := entry.fraction_lt
    rw [Layout.unitsPerSecond] at this
    split at this <;> omega
  have hlength : entry.octets.length < 256 ^ 4 := by
    have := entry.fits
    rw [capacity] at this
    omega
  rw [Record.written, List.append_assoc]
  exact ⟨numberAt_words _ rfl hseconds _, numberAt_words _ rfl hfraction _,
    numberAt_words _ rfl hlength _, slice_words _ entry.fields _ _⟩

/-- A record is read as its frame. -/
theorem reads_record (entry : Record layout) :
    Reads (record layout) entry.written entry.frame := by
  constructor
  · intro more onHand hwhole
    rw [length_record] at hwhole
    obtain ⟨hseconds, hfraction, hlength, hoctets⟩ := fields_written entry more
    have hnone : missingFor onHand [4, 4, 4, 4] = none := missingFor_eq_none (by simp; omega)
    have hfits : ¬onHand - 16 < entry.octets.length := by omega
    rw [record, hnone]
    dsimp -zeta only
    rw [hlength, if_neg hfits, hoctets, hseconds, hfraction, (nanosOf_fraction entry).1,
      ofParts?_nanos, length_record, Record.frame]
  · intro more onHand hpart
    rw [length_record] at hpart ⊢
    obtain ⟨-, -, hlength, -⟩ := fields_written entry more
    rw [record]
    -- octets of the fields are asked for first, one field at a time, and then of the frame
    rcases Nat.lt_or_ge onHand 16 with hfields | hfields
    · have hsum : onHand < [4, 4, 4, 4].sum := hfields
      obtain ⟨count, hcount, hle⟩ := missingFor_eq_some hsum
      rw [hcount]
      exact ⟨count, rfl, Nat.le_trans hle (Nat.le_add_right ..)⟩
    · have hnone : missingFor onHand [4, 4, 4, 4] = none := missingFor_eq_none hfields
      have hshort : onHand - 16 < entry.octets.length := by omega
      rw [hnone]
      dsimp only
      rw [hlength, if_pos hshort]
      exact ⟨_, rfl, by omega⟩

theorem next_of_record {cursor : Cursor} {frame : Frame} {window : Window}
    (hformat : cursor.format = .classic layout)
    (hrecord : cursor.window.next (record layout) = .record frame window) :
    cursor.next = .ok (some frame, { cursor with window }) := by
  rw [Cursor.next, hformat]
  dsimp only
  rw [hrecord]

theorem next_of_finished {cursor : Cursor} (hformat : cursor.format = .classic layout)
    (hend : cursor.window.next (record layout) = .finished) :
    cursor.next = .ok (none, cursor) := by
  rw [Cursor.next, hformat]
  dsimp only
  rw [hend]

/-- Records are read one after the other, wherever the window ends. -/
theorem yields_records {link : Int} {cursor : Cursor} (records : List (Record layout))
    (hsound : cursor.window.Sound)
    (hrest : cursor.window.rest = records.flatMap Record.written)
    (hformat : cursor.format = .classic layout) (hlink : cursor.link = some link) :
    cursor.Yields link (records.map Record.frame) := by
  -- on the records: those that are left are what the window has not consumed
  induction records generalizing cursor with
  | nil =>
    have hmissing : record layout [] 0 = .missing 4 := rfl
    have hnext : cursor.next = .ok (none, cursor) :=
      next_of_finished hformat (Window.next_of_end hsound hrest hmissing (by decide))
    exact .finished hnext hnext hlink
  | cons entry records ih =>
    rw [List.flatMap_cons] at hrest
    have hsome : 0 < entry.written.length := by
      rw [length_record]
      omega
    obtain ⟨after, hrecord, hafter, hmore⟩ := Window.next_of_reads hsound hrest
      (reads_record entry) hsome (by rw [length_record]; exact entry.fits)
    exact .frame (next_of_record hformat hrecord) hlink (ih hafter hmore hformat hlink)

@[simp] theorem Heading.length_written (heading : Heading) :
    (heading.written layout).length = 24 := by
  simp [Heading.written]

/-- A heading is read as the link number that was written. -/
theorem header_written {heading : Heading} (hnumber : heading.number < 2147483648) (more : Octets)
    {onHand : Nat} (hwhole : 24 ≤ onHand) :
    header layout (heading.written layout ++ more) onHand = .ok heading.number 24 := by
  have hall : missingFor onHand [4, 2, 2, 4, 4, 4, 4] = none := missingFor_eq_none hwhole
  have hfield : numberAt layout.bigEndian (heading.written layout ++ more) 20 4 =
      heading.number := by
    have hfits : heading.number < 256 ^ 4 := by omega
    simp only [Heading.written, List.append_assoc]
    rw [numberAt_behind _ _ _ (by simp), numberAt_behind _ _ _ (by simp),
      numberAt_behind _ _ _ (by simp)]
    simp only [length_words, length_spell]
    exact numberAt_words _ (i := 3) rfl hfits more
  have hsigned : signed32 heading.number = heading.number :=
    Int.bmod_eq_of_le (by omega) (by omega)
  rw [header, hall]
  show Parsed.ok (signed32 (numberAt layout.bigEndian _ 20 4)) 24 = _
  rw [hfield, hsigned]

/-- A file opens at its first record. -/
theorem ofContents_contents {heading : Heading} (hnumber : heading.number < 2147483648)
    (records : List (Record layout)) :
    ∃ window : Window, Cursor.ofContents (contents layout heading records) =
        .ok ⟨window, .classic layout, some heading.number⟩ ∧
      window.Sound ∧ window.rest = records.flatMap Record.written := by
  obtain ⟨hsound, hrest, honHand⟩ := Window.sound_ofFile (contents layout heading records)
  have hlength : 24 ≤ (contents layout heading records).length := by
    rw [contents, List.length_append, Heading.length_written]
    omega
  have hwhole : 24 ≤ (Window.ofFile (contents layout heading records)).onHand := by
    rw [honHand]
    exact Nat.le_min.mpr ⟨by decide, hlength⟩
  have hheader : header layout (contents layout heading records)
      (Window.ofFile (contents layout heading records)).onHand = .ok heading.number 24 :=
    header_written hnumber _ hwhole
  have hmagic :
      Layout.ofMagic? (numberAt false (contents layout heading records) 0 4) = some layout := by
    rw [contents, Heading.written, List.append_assoc, numberAt_start _ (by simp)]
    exact ofMagic?_mark layout
  have hclassic : numberAt false (contents layout heading records) 0 4 ≠ Blocks.sectionType := by
    intro hsection
    rw [hsection] at hmagic
    cases hmagic
  refine ⟨(Window.ofFile (contents layout heading records)).consume 24, ?_, hsound.consume hwhole,
    ?_⟩
  · rw [Cursor.ofContents, if_neg (by omega), if_neg hclassic, hmagic]
    dsimp only
    rw [hheader]
  · show (Window.ofFile _).rest.drop 24 = _
    rw [hrest, contents, List.drop_left' (Heading.length_written heading)]

/-- **Files are read back as they were written**: the frames in their order, octet by octet and
    at their exact times, and then none, whichever the order of octets and the unit of time. -/
theorem records_read_back (layout : Layout) (heading : Heading) (type : LinkType)
    (hlink : LinkType.ofNumber? heading.number = some type) (records : List (Record layout)) :
    ∃ file, File.ofContents (some (contents layout heading records)) = .ok file ∧
      file.link = type ∧ file.received = 0 ∧ file.Delivers (records.map Record.frame) := by
  have hnumber : heading.number < 2147483648 := by
    unfold LinkType.ofNumber? at hlink
    split at hlink
    case h_8 => cases hlink
    all_goals omega
  obtain ⟨window, hstart, hsound, hrest⟩ := ofContents_contents hnumber records
  refine File.delivers_of_yields hstart (yields_records records hsound hrest rfl rfl) ?_
    (Int.natCast_nonneg heading.number)
  have hsmall : ((heading.number : Int) % 4294967296).toNat = heading.number := by omega
  rw [hsmall, hlink]

/-! ### A file of two records -/

namespace LastSecond

/-- The last microsecond that a record can tell, the highest octet first. -/
def last : Record ⟨true, false⟩ := ⟨4294967295, 999999, 60, [0x45, 0, 0], by decide, by decide⟩

/-- A record without octets, at the start of 1970. -/
def first : Record ⟨true, false⟩ := ⟨0, 0, 0, [], by decide, by decide⟩

/-- Version 2.4, frames of at most 65535 octets that begin with an Internet header. -/
def heading : Heading := ⟨2, 4, 0, 0, 65535, 101⟩

/-- Records need not be in the order of their times. -/
theorem records_read_back_lastSecond :
    LinkType.ofNumber? 101 = some .rawIp ∧
      ∃ file, File.ofContents (some (contents ⟨true, false⟩ heading [last, first])) = .ok file ∧
        file.link = .rawIp ∧ file.received = 0 ∧
        file.Delivers [⟨[0x45, 0, 0], some ⟨4294967295, 999999000⟩⟩, ⟨[], some ⟨0, 0⟩⟩] :=
  ⟨rfl, records_read_back _ heading .rawIp rfl [last, first]⟩

end LastSecond

end PassiveDns.Capture.Classic
