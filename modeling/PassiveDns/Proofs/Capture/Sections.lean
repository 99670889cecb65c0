/-
  PassiveDns.Proofs.Capture.Sections

  Files of the block format give the frames of the interfaces that have the link number of the
  first interface, and no others. Interfaces are counted anew in every section, while the link
  number stays that of the first section that describes one. The octets of a file spell the
  blocks that were written (`spelled_recordings`); reading blocks gives the frames in them
  (`yields_of_spelled`); and these are the frames of the sections (`framesOf_recordings`).
-/
import PassiveDns.Proofs.Capture.Blocks
import PassiveDns.Proofs.Capture.Readout

namespace PassiveDns.Capture.Blocks

/-! ## What is written -/

/-- A section: its header and its blocks, all of them shorter than the window. -/
structure Recording where
  bigEndian : Bool
  heading : Heading
  bodies : List Body
  heading_fits : (heading.written bigEndian).length < capacity
  bodies_fit : ∀ body ∈ bodies, (body.written bigEndian).length < capacity

/-- A section as it stands in the file. -/
def Recording.written (recording : Recording) : Octets :=
  recording.heading.written recording.bigEndian ++
    recording.bodies.flatMap (Body.written recording.bigEndian)

/-- The link number of an interface. -/
def Body.link? : Body → Option UInt16
  | interface link .. => some link
  | _ => none

/-- The link numbers of the interfaces, in their order. -/
def links (bodies : List Body) : List UInt16 :=
  bodies.filterMap Body.link?

/-- The frame in a block that stands behind these others of its section, if it was taken on an
    interface among them that has this link number. -/
def Body.frame? (link : UInt16) (before : List Body) : Body → Option Frame
  | enhanced index high low _ packet _ =>
    if (links before)[index.toNat]? = some link then
      some ⟨packet.octets, timeOfMicros (high.toNat * 4294967296 + low.toNat)⟩
    else none
  | simple original kept =>
    if (links before).head? = some link then some ⟨kept.take original.toNat, none⟩ else none
  | _ => none

/-- The frames in blocks that stand behind others of their section. -/
def framesBehind (link : UInt16) (before : List Body) : List Body → List Frame
  | [] => []
  | body :: bodies =>
    (body.frame? link before).toList ++ framesBehind link (before ++ [body]) bodies

/-- The frames of a section that were taken on interfaces with this link number. -/
def Recording.frames (link : UInt16) (recording : Recording) : List Frame :=
  framesBehind link [] recording.bodies

/-! ## What is read -/

/-- The link number in a block. -/
def Block.link? : Block → Option Int
  | interface link => some link
  | _ => none

/-- The blocks of a section. -/
def Recording.blocks (recording : Recording) : List Block :=
  .sectionStart recording.bigEndian :: recording.bodies.map Body.block

/-- The frames that blocks give. -/
def framesOf (link : Int) (known : Knowledge) : List Block → List Frame
  | [] => []
  | block :: blocks => (frame? known link block).toList ++ framesOf link (known.after block) blocks

/-- Octets that are read as these blocks, one behind the other. -/
inductive Spelled : Knowledge → Octets → List Block → Prop where
  | done {known : Knowledge} : Spelled known [] []
  | block {known : Knowledge} {record more : Octets} {value : Block} {blocks : List Block}
    (reads : Reads (block known.bigEndian) record value) (some : 0 < record.length)
    (fits : record.length < capacity) (rest : Spelled (known.after value) more blocks) :
    Spelled known (record ++ more) (value :: blocks)

/-- The link number of a file is known, or it is that of the first interface, which is ahead. -/
def Decided (link : Int) (now : Option Int) (known : Knowledge) (blocks : List Block) : Prop :=
  now = some link ∨
    now = none ∧ known.interfaces = [] ∧ (blocks.filterMap Block.link?).head? = some link

section Decided

variable {link : Int} {now : Option Int} {known : Knowledge} {block : Block} {blocks : List Block}

theorem Decided.after (h : Decided link now known (block :: blocks)) :
    Decided link (now.or block.link?) (known.after block) blocks := by
  obtain rfl | ⟨rfl, hnone, hahead⟩ := h
  · exact .inl rfl
  · cases block with
    | interface number =>
      obtain rfl : number = link := Option.some.inj hahead
      exact .inl rfl
    | sectionStart => exact .inr ⟨rfl, rfl, hahead⟩
    | _ => exact .inr ⟨rfl, hnone, hahead⟩

/-- Without an interface a block has no frame, so none is lost while the link number is not
    known. -/
theorem Decided.bind_frame? (h : Decided link now known (block :: blocks)) :
    ((now.or block.link?).bind fun number => frame? known number block) =
      frame? known link block := by
  obtain rfl | ⟨rfl, hnone, -⟩ := h
  · rfl
  · cases block with
    | enhanced | simple => simp [Block.link?, frame?, hnone]
    | _ => rfl

end Decided

/-- What one block does to a file under reading. -/
theorem next_of_block {cursor : Cursor} {known : Knowledge} {value : Block} {window : Window}
    (hformat : cursor.format = .blocks known)
    (hrecord : cursor.window.next (block known.bigEndian) = .record value window)
    (hless : window.rest.length < cursor.window.rest.length) :
    let after : Cursor := ⟨window, .blocks (known.after value), cursor.link.or value.link?⟩
    cursor.next = (after.link.bind fun number => frame? known number value).elim after.next
      fun frame => .ok (some frame, after) := by
  have hnext : cursor.next = cursor.nextOfBlocks known := by
    rw [Cursor.next, hformat]
  rw [hnext, Cursor.nextOfBlocks, hrecord]
  dsimp only
  rw [if_pos hless]
  -- the link number becomes known with the first interface
  generalize cursor.link = now
  cases now with
  | some link =>
    dsimp only [Option.some_or, Option.bind_some]
    cases frame? known link value <;> rfl
  | none =>
    cases value with
    | interface link =>
      dsimp only [Block.link?, Option.none_or, Option.bind_some]
      cases frame? known link (.interface link) <;> rfl
    | _ => rfl

/-- Reading blocks gives the frames in them. -/
theorem yields_of_spelled {link : Int} {known : Knowledge} {octets : Octets} {blocks : List Block}
    (h : Spelled known octets blocks) {cursor : Cursor} (hsound : cursor.window.Sound)
    (hrest : cursor.window.rest = octets) (hformat : cursor.format = .blocks known)
    (hlink : Decided link cursor.link known blocks) :
    cursor.Yields link (framesOf link known blocks) := by
  induction h generalizing cursor with
  | @done known =>
    have hmissing : block known.bigEndian [] 0 = .missing 4 := rfl
    have hend : cursor.next = .ok (none, cursor) := by
      rw [Cursor.next, hformat]
      dsimp only
      rw [Cursor.nextOfBlocks, Window.next_of_end hsound hrest hmissing (by decide)]
    -- no interface is ahead any more
    exact .finished hend hend (hlink.resolve_right fun hahead => by cases hahead.2.2)
  | @block known record more value blocks reads some fits rest ih =>
    obtain ⟨window, hrecord, hafter, hmore⟩ := Window.next_of_reads hsound hrest reads some fits
    have hless : window.rest.length < cursor.window.rest.length := by
      rw [hmore, hrest, List.length_append]
      omega
    have hnext := next_of_block hformat hrecord hless
    have hyields : Cursor.Yields link
        ⟨window, .blocks (known.after value), cursor.link.or value.link?⟩
        (framesOf link (known.after value) blocks) :=
      ih hafter hmore rfl hlink.after
    dsimp only at hnext
    rw [hlink.bind_frame?] at hnext
    rw [framesOf]
    cases hframe : frame? known link value with
    | none =>
      rw [hframe] at hnext
      exact hyields.of_next_eq hnext
    | some frame =>
      rw [hframe] at hnext
      refine .frame hnext ?_ hyields
      -- a frame is only found once the link number is known
      refine hlink.after.resolve_right fun hahead => ?_
      have hnone := hlink.bind_frame?
      rw [hahead.1, hframe] at hnone
      cases hnone

/-! ## Sections -/

variable {bigEndian : Bool}

/-- What is known of a section behind these blocks of it. -/
def knowledge (bigEndian : Bool) (before : List Body) : Knowledge :=
  ⟨bigEndian, (links before).map fun link => (link.toNat : Int)⟩

theorem links_append (before : List Body) (body : Body) :
    links (before ++ [body]) = links before ++ body.link?.toList := by
  rw [links, List.filterMap_append, ← links]
  cases body <;> rfl

theorem after_block (before : List Body) (body : Body) :
    (knowledge bigEndian before).after body.block = knowledge bigEndian (before ++ [body]) := by
  rw [knowledge, knowledge, links_append, List.map_append]
  cases body <;> simp [Body.block, Body.link?, Knowledge.after]

/-- What is kept of a link number tells it from the others. -/
theorem map_toNat_eq_some {link : UInt16} {found : Option UInt16} :
    (found.map fun link => (link.toNat : Int)) = some (link.toNat : Int) ↔ found = some link := by
  cases found with
  | none => simp
  | some found => simp [UInt16.toNat_inj]

theorem frame?_block (link : UInt16) (before : List Body) (body : Body) :
    frame? (knowledge bigEndian before) link.toNat body.block = body.frame? link before := by
  cases body with
  | enhanced | simple =>
    simp only [Body.block, Blocks.frame?, Body.frame?, knowledge, List.getElem?_map, List.head?_map,
      map_toNat_eq_some]
  | _ => rfl

/-- The blocks of a section give its frames. -/
theorem framesOf_bodies (bigEndian : Bool) (link : UInt16) (before bodies : List Body)
    (more : List Block) :
    framesOf link.toNat (knowledge bigEndian before) (bodies.map Body.block ++ more) =
      framesBehind link before bodies ++
        framesOf link.toNat (knowledge bigEndian (before ++ bodies)) more := by
  induction bodies generalizing before with
  | nil => rw [List.append_nil]; rfl
  | cons body bodies ih =>
    rw [List.map_cons, List.cons_append, framesOf, frame?_block, after_block, ih, framesBehind,
      List.append_assoc, List.append_assoc]
    rfl

theorem framesOf_recordings (link : UInt16) (known : Knowledge) (recordings : List Recording) :
    framesOf link.toNat known (recordings.flatMap Recording.blocks) =
      recordings.flatMap (Recording.frames link) := by
  induction recordings generalizing known with
  | nil => rfl
  | cons recording recordings ih =>
    -- with the header all that was known of the section before is forgotten
    have hbodies := framesOf_bodies recording.bigEndian link [] recording.bodies
      (recordings.flatMap Recording.blocks)
    rw [List.flatMap_cons, List.flatMap_cons, Recording.blocks, List.cons_append, framesOf]
    rw [ih] at hbodies
    exact hbodies

/-- The octets of blocks are read as these. -/
theorem spelled_bodies (known : Knowledge) {bodies : List Body} {more : Octets}
    {blocks : List Block}
    (hfit : ∀ body ∈ bodies, (body.written known.bigEndian).length < capacity)
    (hmore : ∀ known, Spelled known more blocks) :
    Spelled known (bodies.flatMap (Body.written known.bigEndian) ++ more)
      (bodies.map Body.block ++ blocks) := by
  induction bodies generalizing known with
  | nil => exact hmore known
  | cons body bodies ih =>
    rw [List.forall_mem_cons] at hfit
    have hsome : 0 < (body.written known.bigEndian).length := by
      rw [Body.written, length_boxed]
      omega
    have horder : (known.after body.block).bigEndian = known.bigEndian := by
      cases body <;> rfl
    rw [List.flatMap_cons, List.append_assoc]
    refine .block (body.reads hfit.1) hsome hfit.1 ?_
    have hrest := ih (known.after body.block) (by rw [horder]; exact hfit.2)
    rwa [horder] at hrest

/-- The octets of a file are read as the blocks of its sections. -/
theorem spelled_recordings (recordings : List Recording) (known : Knowledge) :
    Spelled known (recordings.flatMap Recording.written) (recordings.flatMap Recording.blocks) := by
  induction recordings generalizing known with
  | nil => exact .done
  | cons recording recordings ih =>
    have hsome : 0 < (recording.heading.written recording.bigEndian).length := by
      rw [Heading.written, length_boxed]
      omega
    have hbodies := spelled_bodies ⟨recording.bigEndian, []⟩ recording.bodies_fit ih
    rw [List.flatMap_cons, List.flatMap_cons, Recording.written, Recording.blocks,
      List.append_assoc]
    exact .block (recording.heading.reads recording.heading_fits _) hsome recording.heading_fits
      hbodies

/-- The interfaces of a file are those of its sections. -/
theorem link?_recordings (recordings : List Recording) :
    (recordings.flatMap Recording.blocks).filterMap Block.link? =
      (recordings.flatMap fun recording => links recording.bodies).map
        fun link => (link.toNat : Int) := by
  induction recordings with
  | nil => rfl
  | cons recording recordings ih =>
    have hbodies : (recording.bodies.map Body.block).filterMap Block.link? =
        (links recording.bodies).map fun link => (link.toNat : Int) := by
      rw [List.filterMap_map, links, List.map_filterMap]
      congr
      funext body
      cases body <;> rfl
    rw [List.flatMap_cons, List.flatMap_cons, List.filterMap_append, ih, List.map_append,
      Recording.blocks, List.filterMap_cons, ← hbodies]
    rfl

/-- A file that begins with a section header opens there. -/
theorem ofContents_heading (heading : Heading)
    (hfits : (heading.written bigEndian).length < capacity) (more : Octets) :
    Cursor.ofContents (heading.written bigEndian ++ more) =
      .ok ⟨Window.ofFile (heading.written bigEndian ++ more), .blocks ⟨false, []⟩, none⟩ := by
  have hlength :
      (heading.written bigEndian).length ≤ (heading.written bigEndian ++ more).length := by
    rw [List.length_append]
    exact Nat.le_add_right ..
  have hfour : ¬(heading.written bigEndian ++ more).length < 4 := by
    rw [Heading.written, length_boxed] at hlength
    rw [Heading.written]
    omega
  have hwhole : (heading.written bigEndian).length ≤
      (Window.ofFile (heading.written bigEndian ++ more)).onHand := by
    rw [(Window.sound_ofFile _).2.2]
    exact Nat.le_min.mpr ⟨Nat.le_of_lt hfits, hlength⟩
  rw [Cursor.ofContents, if_neg hfour, if_pos (heading.numberAt_type false more),
    (heading.reads_own hfits).whole more _ hwhole]

/-- **Reading a file of the block format gives the frames of the first interface's link type**:
    in their order, those that were taken on an interface of their own section that has the link
    number of the first interface of the file, and then none. -/
theorem sections_read_back (recordings : List Recording) (link : UInt16) (type : LinkType)
    (hfirst : (recordings.flatMap fun recording => links recording.bodies).head? = some link)
    (htype : LinkType.ofNumber? link.toNat = some type) :
    ∃ file, File.ofContents (some (recordings.flatMap Recording.written)) = .ok file ∧
      file.link = type ∧ file.received = 0 ∧
      file.Delivers (recordings.flatMap (Recording.frames link)) := by
  cases recordings with
  | nil => cases hfirst
  | cons recording recordings =>
    have hlink : Decided link.toNat none ⟨false, []⟩
        ((recording :: recordings).flatMap Recording.blocks) := by
      refine .inr ⟨rfl, rfl, ?_⟩
      rw [link?_recordings, List.head?_map, hfirst]
      rfl
    have hspelled := spelled_recordings (recording :: recordings) ⟨false, []⟩
    rw [← framesOf_recordings link ⟨false, []⟩]
    rw [List.flatMap_cons, Recording.written, List.append_assoc] at hspelled ⊢
    obtain ⟨hsound, hrest, -⟩ := Window.sound_ofFile (recording.heading.written _ ++ _)
    have hnumber : ((link.toNat : Int) % 4294967296).toNat = link.toNat := by
      have := link.toNat_lt
      omega
    exact File.delivers_of_yields
      (ofContents_heading recording.heading recording.heading_fits _)
      (yields_of_spelled hspelled hsound hrest rfl hlink) (hnumber.symm ▸ htype)
      (Int.natCast_nonneg link.toNat)

/-! ### Two sections -/

namespace TwoSections

/-- A header of version 1.0 that does not tell how long its section is. -/
def heading : Heading := ⟨1, 0, 0xffffffff, 0xffffffff, []⟩

/-- Three octets that are filled up. -/
def packet (first : UInt8) : Padded := ⟨[first, 2, 3], [0], show 4 = padded 3 from rfl⟩

/-- A packet before any interface, one of the first interface, and one each of the second and of
    the first behind the second, the highest octet first. -/
def one : Recording where
  bigEndian := true
  heading := heading
  bodies :=
    [.enhanced 0 0 0 60 (packet 10) [], .interface 1 0 65535 [], .simple 3 [11, 2, 3, 0],
      .interface 101 0 65535 [], .enhanced 1 0 1500000 60 (packet 12) [],
      .enhanced 0 0 1500000 60 (packet 13) []]
  heading_fits := by decide
  bodies_fit := by decide

/-- A section in which the first interface is of another link type than that of the file. -/
def another : Recording where
  bigEndian := false
  heading := heading
  bodies :=
    [.names [⟨1, ⟨[127, 0, 0, 1, 97, 0], [0, 0], rfl⟩, by decide, by decide⟩] [],
      .interface 101 0 65535 [], .simple 3 [20, 2, 3, 0], .enhanced 0 0 0 60 (packet 21) [],
      .interface 1 0 65535 [], .enhanced 1 0 2 60 (packet 22) [], .enhanced 2 0 0 60 (packet 23) []]
  heading_fits := by decide
  bodies_fit := by decide

/-- Three of the eight packets were taken on an interface of the first one's link type. -/
theorem sections_read_back_two :
    ([one, another].flatMap fun recording => links recording.bodies).head? = some 1 ∧
      LinkType.ofNumber? 1 = some .ethernet ∧
      ∃ file, File.ofContents (some ([one, another].flatMap Recording.written)) = .ok file ∧
        file.link = .ethernet ∧ file.received = 0 ∧
        file.Delivers [⟨[11, 2, 3], none⟩, ⟨[13, 2, 3], some ⟨1, 500000000⟩⟩,
          ⟨[22, 2, 3], some ⟨0, 2000⟩⟩] := by
  have hframes : [one, another].flatMap (Recording.frames 1) =
      [⟨[11, 2, 3], none⟩, ⟨[13, 2, 3], some ⟨1, 500000000⟩⟩,
        ⟨[22, 2, 3], some ⟨0, 2000⟩⟩] := by
    decide
  refine ⟨rfl, rfl, ?_⟩
  rw [← hframes]
  exact sections_read_back [one, another] 1 .ethernet rfl rfl

end TwoSections

end PassiveDns.Capture.Blocks
