/-
  PassiveDns.Proofs.Lines

  What a file of lines holds after a sink was opened, given observations and closed: what it
  held before, and for each observation one document that holds no line end, and a line end.
  Cut there, the file gives back the documents, and these the texts that were captured.
-/
import Mathlib.Data.List.Basic
import Mathlib.Tactic.Common
import PassiveDns.Proofs.Documents
import PassiveDns.Sink.JsonLines

namespace PassiveDns

open Text (Json)

/-! ## Captured texts -/

/-- The texts that data hold. -/
def Dns.RecordData.texts : Dns.RecordData → List String
  | a _ => []
  | aaaa _ => []
  | ns host => [host]
  | cname host => [host]
  | ptr host => [host]
  | mx _ host => [host]
  | srv _ _ _ host => [host]
  | soa primary mailbox _ _ _ _ _ => [primary, mailbox]
  | txt chunks => chunks
  | other _ _ => []

/-- The texts that a record holds. -/
def Dns.Record.texts : Dns.Record → List String
  | resource owner _ data => owner :: data.texts
  | options _ _ _ => []

/-- The texts of an observation that come from elsewhere: those of the message, question by
    question and record by record, and the name of who observed it. -/
structure Captured where
  questions : List String
  answers : List (List String)
  authorities : List (List String)
  additionals : List (List String)
  server : Option String
deriving Repr, DecidableEq

def Observation.captured (observation : Observation) : Captured where
  questions := observation.message.questions.map Dns.Question.name
  answers := observation.message.answers.map Dns.Record.texts
  authorities := observation.message.authorities.map Dns.Record.texts
  additionals := observation.message.additionals.map Dns.Record.texts
  server := observation.server

namespace Text.Json

/-- What an object has under a name. -/
def get? (name : String) : Json → Option Json
  | obj members => members.lookup name
  | _ => none

/-- A string alone. -/
def text? : Json → Option String
  | str s => some s
  | _ => none

/-- The string that an object has under a name. -/
def textAt? (name : String) (doc : Json) : Option String := (doc.get? name).bind text?

/-- The items of the array that an object has under a name. -/
def itemsAt (name : String) (doc : Json) : List Json :=
  match doc.get? name with
  | some (arr items) => items
  | _ => []

end Text.Json

/-- The strings that the document of a record has under the names by which its texts go. -/
def Captured.ofRecord (doc : Json) : List String :=
  (doc.textAt? "domain").toList ++ (doc.textAt? "host").toList ++ (doc.textAt? "m_name").toList ++
    (doc.textAt? "r_name").toList ++ (doc.itemsAt "data").filterMap Json.text?

/-- What a reader of the document finds who knows where to look. -/
def Captured.ofJson (doc : Json) : Captured :=
  let message := (doc.get? "dns").getD .null
  { questions := (message.itemsAt "questions").filterMap (Json.textAt? "name")
    answers := (message.itemsAt "answers").map ofRecord
    authorities := (message.itemsAt "authorities").map ofRecord
    additionals := (message.itemsAt "resources").map ofRecord
    server := doc.textAt? "server" }

theorem Text.Json.filterMap_text?_str (texts : List String) :
    (texts.map Json.str).filterMap Json.text? = texts := by
  rw [List.filterMap_map]
  exact List.filterMap_some

theorem Captured.ofRecord_toJson (record : Dns.Record) : ofRecord record.toJson = record.texts := by
  cases record with
  | options => rfl
  | resource owner ttl data =>
    cases data with
    -- the only data with an array among their members
    | txt chunks => exact congrArg (owner :: ·) (Json.filterMap_text?_str chunks)
    | _ => rfl

theorem Captured.ofJson_toJson (observation : Observation) :
    ofJson observation.toJson = observation.captured := by
  have hquestions : (observation.message.questions.map Dns.Question.toJson).filterMap
      (Json.textAt? "name") = observation.message.questions.map Dns.Question.name := by
    rw [List.filterMap_map]
    exact congrFun List.filterMap_eq_map _
  have hrecords (records : List Dns.Record) :
      (records.map Dns.Record.toJson).map ofRecord = records.map Dns.Record.texts := by
    rw [List.map_map]
    exact List.map_congr_left fun record _ => ofRecord_toJson record
  have hserver : observation.toJson.textAt? "server" = observation.server := by
    show (Json.ofOption Json.str observation.server).text? = _
    cases observation.server <;> rfl
  rw [ofJson, Observation.captured, Captured.mk.injEq]
  exact ⟨hquestions, hrecords _, hrecords _, hrecords _, hserver⟩

/-! ## Buffers in front of a file -/

namespace Sink

/-- What the file in front of which a buffer stands will hold once the buffer is flushed. -/
def Buffered.Holds (buffer : Buffered) (octets : Octets) : Prop :=
  ∃ contents, buffer.device = .file (some contents) ∧
    contents.toList ++ buffer.pending.toList = octets

namespace Buffered.Holds

variable {buffer : Buffered} {octets : Octets}

theorem flush (h : buffer.Holds octets) :
    buffer.flush = (.ok (), ⟨.file (some octets.toArray), #[]⟩) := by
  obtain ⟨contents, hdevice, rfl⟩ := h
  rw [Buffered.flush, hdevice]
  simp [Device.append]

theorem flushed (octets : Octets) : Holds ⟨.file (some octets.toArray), #[]⟩ octets :=
  ⟨_, rfl, by simp⟩

/-- A piece that is passed on finds nothing collected before it. -/
theorem add (h : buffer.Holds octets) {piece : Octets}
    (hlarge : capacity ≤ piece.length → buffer.pending = #[]) :
    ∃ after, buffer.add piece = (.ok (), after) ∧ after.Holds (octets ++ piece) := by
  obtain ⟨contents, hdevice, rfl⟩ := h
  unfold Buffered.add
  split
  · exact ⟨_, rfl, contents, hdevice, by simp⟩
  · rename_i hfull
    rw [hdevice]
    refine ⟨_, rfl, contents ++ piece.toArray, rfl, ?_⟩
    simp [hlarge (Nat.le_of_not_lt hfull)]

theorem put (h : buffer.Holds octets) (piece : Octets) :
    ∃ after, buffer.put piece = (.ok (), after) ∧ after.Holds (octets ++ piece) := by
  unfold Buffered.put
  split
  · -- a piece as large as the buffer fits only if nothing is collected
    rename_i hfits
    refine h.add fun hlarge => ?_
    rw [← Array.size_eq_zero_iff]
    omega
  · rw [h.flush]
    exact (flushed octets).add fun _ => rfl

/-- However the pieces fall on flushes, they arrive in order and whole. -/
theorem putAll (h : buffer.Holds octets) (pieces : List Octets) :
    ∃ after, buffer.putAll pieces = (.ok (), after) ∧ after.Holds (octets ++ pieces.flatten) := by
  induction pieces generalizing buffer octets with
  | nil => exact ⟨buffer, rfl, by rwa [List.flatten_nil, List.append_nil]⟩
  | cons piece pieces ih =>
    obtain ⟨after, hput, hafter⟩ := h.put piece
    obtain ⟨last, hall, hlast⟩ := ih hafter
    refine ⟨last, ?_, ?_⟩
    · rw [Buffered.putAll, hput]
      exact hall
    · rwa [List.flatten_cons, ← List.append_assoc]

end Buffered.Holds

/-! ## Lines in a file -/

/-- What a sink's file will hold once the sink, which is open, is closed. -/
def JsonLines.Holds (sink : JsonLines) (octets : Octets) : Prop :=
  ∃ pending, sink.pending = some pending ∧ Buffered.Holds ⟨sink.device, pending⟩ octets

namespace JsonLines

/-- Writes observations, one after the other, up to the first that cannot be written. -/
def writeAll : JsonLines → List Observation → Except Error Unit × JsonLines
  | sink, [] => (.ok (), sink)
  | sink, observation :: rest =>
    match sink.write observation with
    | (.ok (), after) => after.writeAll rest
    | (.error cause, after) => (.error cause, after)

variable {sink : JsonLines} {octets : Octets}

/-- A file is opened for appending. What the sink had pending goes first. -/
theorem start_file (path : String) (contents pending : Option (Array UInt8)) :
    ∃ opened, start ⟨.file path, .file contents, pending⟩ = (.ok (), opened) ∧
      opened.device.contents? = some (contents.getD #[] ++ pending.getD #[]).toList ∧
      opened.Holds (contents.getD #[] ++ pending.getD #[]).toList := by
  cases pending with
  | none =>
    refine ⟨_, rfl, ?_, _, rfl, contents.getD #[], rfl, ?_⟩
    · show some _ = _
      simp
    · simp
  | some pending =>
    refine ⟨_, rfl, rfl, _, rfl, contents.getD #[] ++ pending, rfl, ?_⟩
    simp

theorem flatten_linePieces (observation : Observation) :
    observation.linePieces.flatten ++ lineEnd = observation.line := by
  have hpieces : observation.linePieces.flatten =
      Text.Utf8.encode observation.toJson.pieces.flatten := by
    rw [Observation.linePieces, ← List.flatMap_def, Text.Utf8.encode, ← List.flatMap_id,
      List.flatMap_assoc]
    rfl
  rw [hpieces, Json.flatten_pieces, Observation.line]

/-- A whole line is written, and nothing else. -/
theorem Holds.write (h : sink.Holds octets) (observation : Observation) :
    ∃ after, sink.write observation = (.ok (), after) ∧
      after.Holds (octets ++ observation.line) := by
  obtain ⟨pending, hpending, hholds⟩ := h
  obtain ⟨documented, hall, hdocumented⟩ := hholds.putAll observation.linePieces
  obtain ⟨ended, hput, hended⟩ := hdocumented.put lineEnd
  refine ⟨{ sink with device := ended.device, pending := some ended.pending }, ?_, ended.pending,
    rfl, ?_⟩
  · rw [JsonLines.write, hpending]
    dsimp only
    rw [hall]
    dsimp only
    rw [hput]
  · rwa [List.append_assoc, flatten_linePieces] at hended

theorem Holds.writeAll (h : sink.Holds octets) (observations : List Observation) :
    ∃ after, sink.writeAll observations = (.ok (), after) ∧
      after.Holds (octets ++ observations.flatMap Observation.line) := by
  induction observations generalizing sink octets with
  | nil => exact ⟨sink, rfl, by rwa [List.flatMap_nil, List.append_nil]⟩
  | cons observation observations ih =>
    obtain ⟨after, hwrite, hafter⟩ := h.write observation
    obtain ⟨last, hall, hlast⟩ := ih hafter
    refine ⟨last, ?_, ?_⟩
    · rw [JsonLines.writeAll, hwrite]
      exact hall
    · rwa [List.flatMap_cons, ← List.append_assoc]

theorem Holds.close (h : sink.Holds octets) :
    ∃ closed, sink.close = (.ok (), closed) ∧ closed.device.contents? = some octets := by
  obtain ⟨pending, hpending, hholds⟩ := h
  refine ⟨sink.release, ?_, ?_⟩
  · rw [JsonLines.close, hpending]
    dsimp only
    rw [hholds.flush]
  · rw [release, hpending]
    dsimp only
    rw [hholds.flush]
    rfl

end JsonLines

end Sink

/-! ## Lines apart -/

/-- What is in the line of an observation in front of its end. -/
def Observation.document (observation : Observation) : Octets :=
  Text.Utf8.encode observation.toJson.compact

namespace Observation

theorem document_high (observation : Observation) : ∀ b ∈ observation.document, 0x20 ≤ b.toNat :=
  fun _ => Json.le_toNat_of_mem_encode (Json.printable_compact observation.toJson)

/-- Cut at its line ends, a text of lines is its documents, and nothing behind the last one. -/
theorem splitOn_lines (observations : List Observation) :
    (observations.flatMap line).splitOn 10 = observations.map document ++ [[]] := by
  induction observations with
  | nil => rfl
  | cons observation observations ih =>
    -- a line end inside would be an octet below 0x20
    have hend : 10 ∉ observation.document := fun h =>
      absurd (observation.document_high 10 h) (by decide)
    have hline : (observation :: observations).flatMap line =
        observation.document ++ 10 :: observations.flatMap line := by
      rw [List.flatMap_cons]
      show observation.document ++ [10] ++ _ = _
      rw [List.append_assoc]
      rfl
    rw [hline, List.splitOn_append_cons_self_of_not_mem hend, ih]
    rfl

end Observation

/-- Whatever the observations: a sink for a file that is opened, given them one after the other
    and closed does all of that, and appends for each of them one document and a line end. No
    document has an octet below 0x20, so that the lines come apart as they were written; each is
    the JSON text of its observation, and has the texts that were captured where they belong. -/
theorem Sink.JsonLines.one_document_a_line (path : String)
    (contents pending : Option (Array UInt8)) (observations : List Observation) :
    ∃ opened written closed : JsonLines, ∃ before appended : Octets,
      start ⟨.file path, .file contents, pending⟩ = (.ok (), opened) ∧
      before = (contents.getD #[] ++ pending.getD #[]).toList ∧
      opened.device.contents? = some before ∧
      opened.writeAll observations = (.ok (), written) ∧
      written.close = (.ok (), closed) ∧
      closed.device.contents? = some (before ++ appended) ∧
      appended = observations.flatMap (fun observation => observation.document ++ lineEnd) ∧
      appended.splitOn 10 = observations.map Observation.document ++ [[]] ∧
      ∀ observation ∈ observations,
        (∀ b ∈ observation.document, 0x20 ≤ b.toNat) ∧
        Json.ofOctets? observation.document = some observation.toJson ∧
        Captured.ofJson observation.toJson = observation.captured := by
  obtain ⟨opened, hstart, hcontents, hopened⟩ := start_file path contents pending
  obtain ⟨written, hwrite, hwritten⟩ := hopened.writeAll observations
  obtain ⟨closed, hclose, hclosed⟩ := hwritten.close
  refine ⟨opened, written, closed, _, _, hstart, rfl, hcontents, hwrite, hclose, hclosed, rfl,
    Observation.splitOn_lines observations, fun observation _ => ?_⟩
  exact ⟨observation.document_high, Json.ofOctets?_encode observation.toJson,
    Captured.ofJson_toJson observation⟩

end PassiveDns
