/-
  PassiveDns.Capture.File

  Capture files: opening one, which reads as far as the first frame, and reading
  frame after frame. The link type of the first interface decides what frames
  begin with; frames of interfaces with another one are passed over.
-/
import PassiveDns.Capture.Blocks
import PassiveDns.Capture.Classic

namespace PassiveDns.Capture

/-- The format of a file, with what reading it has shown so far. -/
inductive Format where
  | classic (layout : Classic.Layout)
  | blocks (known : Blocks.Knowledge)
deriving Repr, DecidableEq, Inhabited

/-- A file under reading. `link` is the link number once it is known. -/
structure Cursor where
  window : Window
  format : Format
  link : Option Int
deriving Repr, DecidableEq, Inhabited

namespace Cursor

/-- The next frame of a file in the block format. -/
def nextOfBlocks (cursor : Cursor) (known : Blocks.Knowledge) :
    Except Error (Option Frame × Cursor) :=
  match cursor.window.next (Blocks.block known.bigEndian) with
  | .fault fault => .error (.violated .blocks fault)
  | .finished => .ok (none, cursor)
  | .record block window =>
    let link := match cursor.link, block with
      | none, .interface link => some link
      | link, _ => link
    let after : Cursor := { window, format := .blocks (known.after block), link }
    match link.bind fun number => Blocks.frame? known number block with
    | some frame => .ok (some frame, after)
    | none =>
      if window.rest.length < cursor.window.rest.length then
        after.nextOfBlocks (known.after block)
      else .ok (none, after)
termination_by cursor.window.rest.length

/-- The next frame, or none at the end of the file. -/
def next (cursor : Cursor) : Except Error (Option Frame × Cursor) :=
  match cursor.format with
  | .blocks known => cursor.nextOfBlocks known
  | .classic layout =>
    match cursor.window.next (Classic.record layout) with
    | .fault fault => .error (.violated .classic fault)
    | .finished => .ok (none, cursor)
    | .record frame window => .ok (some frame, { cursor with window })

/-- A file at its first record, its header having been read. -/
def ofContents (contents : Octets) : Except Error Cursor :=
  let window := Window.ofFile contents
  let magic := numberAt false contents 0 4
  if contents.length < 4 then .error (.file .tooShort)
  else if magic = Blocks.sectionType then
    match Blocks.sectionHeader contents window.onHand with
    | .ok _ _ => .ok ⟨window, .blocks ⟨false, []⟩, none⟩
    | .missing count => .error (.violated .blocksHeader (.incomplete count))
    | .bad fault => .error (.violated .blocksHeader fault)
  else
    match Classic.Layout.ofMagic? magic with
    | none => .error (.unknownMagic magic)
    | some layout =>
      match Classic.header layout contents window.onHand with
      | .ok link size => .ok ⟨window.consume size, .classic layout, some link⟩
      | .missing count => .error (.violated .classicHeader (.incomplete count))
      | .bad fault => .error (.violated .classicHeader fault)

end Cursor

/-- An open capture file: what its frames begin with, a frame that was read
    ahead, and the number of frames handed out. -/
structure File where
  cursor : Cursor
  link : LinkType
  readAhead : Option Frame
  received : Nat
deriving Repr, DecidableEq, Inhabited

namespace File

/-- The link number of a file. Where neither a frame nor a link number that is
    not negative was found, frames would begin with an Ethernet header. -/
def linkNumber (link : Option Int) (first : Option Frame) : Int :=
  let number := link.getD (-1)
  if number < 0 ∧ first.isNone then 1 else number

/-- Opens a file with these contents, or none if there is no such file. -/
def ofContents (contents : Option Octets) : Except Error File :=
  match contents with
  | none => .error (.file .notFound)
  | some octets => do
    let start ← Cursor.ofContents octets
    let (first, cursor) ← start.next
    let number := linkNumber cursor.link first
    match LinkType.ofNumber? (number % 4294967296).toNat with
    | some link => pure ⟨cursor, link, first, 0⟩
    | none => throw (.unsupportedLink number)

/-- The next frame, or none at the end of the file. -/
def next (file : File) : Except Error (Option Frame × File) :=
  match file.readAhead with
  | some frame =>
    .ok (some frame, { file with readAhead := none, received := file.received + 1 })
  | none => do
    let (frame, cursor) ← file.cursor.next
    pure (frame, { file with cursor, received := file.received + (if frame.isSome then 1 else 0) })

/-- The frames up to the end or to a fault, at most `count` of them. -/
def framesWithin (file : File) : Nat → List Frame × Option Error
  | 0 => ([], none)
  | count + 1 =>
    match file.next with
    | .error error => ([], some error)
    | .ok (none, _) => ([], none)
    | .ok (some frame, after) =>
      let (frames, fault) := after.framesWithin count
      (frame :: frames, fault)

/-- The frames up to the end or to a fault, and the fault. Every frame takes up
    octets of the file, so there are no more frames than octets, and one that was
    read ahead. -/
def frames (file : File) : List Frame × Option Error :=
  file.framesWithin (file.cursor.window.rest.length + 2)

end File

end PassiveDns.Capture
