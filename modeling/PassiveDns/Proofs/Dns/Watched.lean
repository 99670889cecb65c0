/-
  PassiveDns.Proofs.Dns.Watched

  Reading a message under watch. A watched step reads what a reading step reads,
  but looks at every move of the cursor, every slice and every subtraction, and
  one that is out of range stops it for a reason of its own. Watched steps end as
  reading steps do, with the cursor at the same place in the message. So nothing
  is ever out of range, whatever the octets are and however reading them ends.
-/
import PassiveDns.Proofs.Dns.Messages

namespace PassiveDns.Dns

/-! ## Watched steps -/

/-- Why a watched step stops: the message cannot be read, or the step was about
    to leave the message. -/
inductive Stop where
  | refused (cause : WireError)
  | outOfRange
deriving Repr, DecidableEq, Inhabited

/-- A step that reads octets at a cursor and moves it, under watch. -/
abbrev Watched := ReaderT (Array UInt8) (EStateM Stop Nat)

namespace Watched

/-- Where the cursor stands. -/
def position : Watched Nat := get

/-- Puts the cursor at a position, which must not lie past the end. -/
def moveTo (i : Nat) : Watched Unit := do
  if i ≤ (← read).size then set i else throw .outOfRange

/-- The octets between two offsets, which must be in order and in the message. -/
def slice (start stop : Nat) : Watched Octets := do
  let octets ← read
  if start ≤ stop ∧ stop ≤ octets.size then pure (octets.extract start stop).toList
  else throw .outOfRange

/-- A difference, which must not be negative. -/
def minus (n m : Nat) : Watched Nat :=
  if m ≤ n then pure (n - m) else throw .outOfRange

/-- The octet at a position. -/
def octetAt (i : Nat) : Watched UInt8 := do
  match (← read)[i]? with
  | some b => pure b
  | none => throw (.refused .endOfBuffer)

/-- The octets of a range, of which a slice is taken if it lies in the message. -/
def range (start count : Nat) : Watched Octets := do
  if start + count ≤ (← read).size then slice start (start + count)
  else throw (.refused .endOfBuffer)

/-- The next octet. -/
def octet : Watched UInt8 := do
  let i ← position
  let b ← octetAt i
  moveTo (i + 1)
  pure b

/-- The next 16-bit word. -/
def word16 : Watched UInt16 := do
  let hi ← octet
  let lo ← octet
  pure (Octets.word16 hi lo)

/-- The next 32-bit word. -/
def word32 : Watched UInt32 := do
  let a ← octet
  let b ← octet
  let c ← octet
  let d ← octet
  pure (Octets.word32 a b c d)

/-- Takes the same step `count` times and collects the values. -/
def times {α : Type} (count : Nat) (step : Watched α) : Watched (List α) :=
  match count with
  | 0 => pure []
  | n + 1 => do
    let value ← step
    let values ← times n step
    pure (value :: values)

/-- Puts the cursor behind a name, where it already stands if a pointer has been
    followed. -/
def leave (jumps i : Nat) : Watched Unit :=
  if jumps = 0 then moveTo i else pure ()

/-- The labels of a name from `start` on, when `jumps` pointers have been followed
    and the labels so far take `used` octets. The name is left behind the first
    pointer, or behind the closing zero if there is no pointer. -/
def labels (start jumps used : Nat) : Watched (List Octets) := do
  let b ← octetAt start
  if Name.isPointer b then
    if Name.maxJumps ≤ jumps then throw (.refused .tooManyJumps)
    else do
      let lo ← octetAt (start + 1)
      leave jumps (start + 2)
      labels (Name.target b lo) (jumps + 1) used
  else if 64 ≤ b.toNat then throw (.refused .badLabel)
  else if b.toNat = 0 then do
    leave jumps (start + 1)
    pure []
  else if Name.maxLength < used + (b.toNat + 1) then throw (.refused .nameTooLong)
  else do
    let label ← range (start + 1) b.toNat
    let rest ← labels (start + 1 + b.toNat) jumps (used + (b.toNat + 1))
    pure (label :: rest)
termination_by (Name.maxJumps - jumps) + (Name.maxLength - used)

/-- Reads a name. -/
def name : Watched String := do
  let labels ← labels (← position) 0 0
  pure (Name.textOf labels)

/-- The texts of a TXT record between two offsets. -/
def chunks (start stop : Nat) : Watched (List String) :=
  if h : start < stop then do
    let length ← octetAt start
    let next := min (start + 1 + length.toNat) stop
    let chunk ← range (start + 1) (← minus next (start + 1))
    let chunks ← chunks next stop
    pure (Text.Utf8.toStringLossy chunk :: chunks)
  else pure []
termination_by stop - start

/-- The data of a record of type `type`, which take `length` octets from
    `start` on. -/
def recordData (type : RecordType) (start : Nat) (length : UInt16) : Watched RecordData :=
  let rest : Watched RecordData := pure (.other type.toNumber length)
  match type with
  | .a =>
    if length = 4 then do
      let address ← word32
      pure (.a (BitVec.ofNat 32 address.toNat))
    else rest
  | .aaaa =>
    if length = 16 then do
      let octets ← range start 16
      pure (.aaaa (BitVec.ofNat 128 octets.toNatBE))
    else rest
  | .ns => do
    let host ← name
    pure (.ns host)
  | .cname => do
    let host ← name
    pure (.cname host)
  | .ptr => do
    let host ← name
    pure (.ptr host)
  | .srv => do
    let priority ← word16
    let weight ← word16
    let port ← word16
    let host ← name
    pure (.srv priority weight port host)
  | .mx => do
    let preference ← word16
    let host ← name
    pure (.mx preference host)
  | .soa => do
    let primary ← name
    let mailbox ← name
    let serial ← word32
    let refresh ← word32
    let retry ← word32
    let expire ← word32
    let minimum ← word32
    pure (.soa primary mailbox serial refresh retry expire minimum)
  | .txt => do
    let chunks ← chunks start (start + length.toNat)
    pure (.txt chunks)
  | _ => rest

/-- Reads a record. -/
def record : Watched Record := do
  let owner ← name
  let type ← word16
  let cls ← word16
  let ttl ← word32
  let length ← word16
  let start ← position
  let _ ← range start length.toNat
  let record ← match RecordType.ofNumber type with
    | .opt => pure (Record.options cls ttl length)
    | known => do
      let data ← recordData known start length
      pure (Record.resource owner ttl data)
  moveTo (start + length.toNat)
  pure record

/-- Reads a header. -/
def header : Watched Header := do
  let id ← word16
  let flags ← word16
  let questionCount ← word16
  let answerCount ← word16
  let authorityCount ← word16
  let additionalCount ← word16
  pure (Header.ofWords id flags questionCount answerCount authorityCount additionalCount)

/-- Reads a question. -/
def question : Watched Question := do
  let name ← name
  let type ← word16
  let cls ← word16
  pure ⟨name, RecordType.ofNumber type, cls⟩

/-- Reads a message: its header and then what the header counts. -/
def message : Watched Message := do
  let header ← header
  let questions ← times header.questionCount.toNat question
  let answers ← times header.answerCount.toNat record
  let authorities ← times header.authorityCount.toNat record
  let additionals ← times header.additionalCount.toNat record
  pure { header, questions, answers, authorities, additionals }

/-! ## Steps that end alike -/

/-- From position `n` on a watched step ends as a reading step does, with the
    same cursor, which is in the message. -/
inductive Follows {α : Type} (watched : Watched α) (step : Reader α) (source : Source)
    (n : Nat) : Prop where
  | done {a : α} {m : Nat} (hm : m ≤ source.octets.size)
      (hwatched : watched source.octets n = .ok a m) (hstep : step source n = .ok a m)
  | refused {cause : WireError} {m : Nat} (hm : m ≤ source.octets.size)
      (hwatched : watched source.octets n = .error (.refused cause) m)
      (hstep : step source n = .error cause m)

variable {α β : Type} {source : Source} {n : Nat}

/-- Nothing is out of range for a watched step that ends as a reading step does. -/
theorem Follows.ne_outOfRange {watched : Watched α} {step : Reader α}
    (h : Follows watched step source n) (m : Nat) :
    watched source.octets n ≠ .error .outOfRange m := by
  cases h with
  | done _ hwatched _ =>
    rw [hwatched]
    intro hrange
    cases hrange
  | refused _ hwatched _ =>
    rw [hwatched]
    intro hrange
    cases hrange

theorem Follows.le_size {watched : Watched α} {step : Reader α} {a : α} {m : Nat}
    (h : Follows watched step source n) (hstep : step source n = .ok a m) :
    m ≤ source.octets.size := by
  cases h with
  | done hm _ hdone =>
    rw [hdone] at hstep
    cases hstep
    exact hm
  | refused _ _ hrefused =>
    rw [hrefused] at hstep
    cases hstep

theorem read_ok (octets : Array UInt8) (n : Nat) :
    (read : Watched (Array UInt8)) octets n = .ok octets n := rfl

theorem position_ok (octets : Array UInt8) (n : Nat) :
    Watched.position octets n = .ok n n := rfl

theorem moveTo_ok {octets : Array UInt8} {i : Nat} (h : i ≤ octets.size) (n : Nat) :
    moveTo i octets n = .ok () i := by
  rw [moveTo, bind_done (read_ok octets n), if_pos h]
  rfl

theorem leave_ok {octets : Array UInt8} {i : Nat} (h : i ≤ octets.size) (jumps n : Nat) :
    leave jumps i octets n = .ok () (if jumps = 0 then i else n) := by
  rw [leave]
  by_cases hjumps : jumps = 0
  · rw [if_pos hjumps, if_pos hjumps, moveTo_ok h n]
  · rw [if_neg hjumps, if_neg hjumps]
    rfl

theorem octetAt_ok {octets : Array UInt8} {i : Nat} {b : UInt8} (h : octets[i]? = some b)
    (n : Nat) : octetAt i octets n = .ok b n := by
  rw [octetAt, bind_done (read_ok octets n), h]
  rfl

theorem octetAt_error {octets : Array UInt8} {i : Nat} (h : octets[i]? = none) (n : Nat) :
    octetAt i octets n = .error (.refused .endOfBuffer) n := by
  rw [octetAt, bind_done (read_ok octets n), h]
  rfl

/-- A range that is taken at all is taken as a slice in range. -/
theorem range_ok {octets : Array UInt8} {start count : Nat} (h : start + count ≤ octets.size)
    (n : Nat) :
    range start count octets n = .ok (octets.extract start (start + count)).toList n := by
  rw [range, bind_done (read_ok octets n), if_pos h, slice, bind_done (read_ok octets n),
    if_pos ⟨Nat.le_add_right start count, h⟩]
  rfl

theorem range_error {octets : Array UInt8} {start count : Nat}
    (h : ¬start + count ≤ octets.size) (n : Nat) :
    range start count octets n = .error (.refused .endOfBuffer) n := by
  rw [range, bind_done (read_ok octets n), if_neg h]
  rfl

namespace Follows

theorem pure (hn : n ≤ source.octets.size) (a : α) :
    Follows (Pure.pure a) (Pure.pure a) source n :=
  .done hn rfl rfl

/-- What comes next starts where the first step ends, if it ends well. -/
theorem bind {watched : Watched α} {step : Reader α} {watchedNext : α → Watched β}
    {next : α → Reader β} (h : Follows watched step source n)
    (hnext : ∀ a m, step source n = .ok a m → m ≤ source.octets.size →
      Follows (watchedNext a) (next a) source m) :
    Follows (watched >>= watchedNext) (step >>= next) source n := by
  cases h with
  | @done a m hm hwatched hstep =>
    have hrest := hnext a m hstep hm
    cases hrest with
    | done hk hwatchedRest hrest =>
      apply done hk
      · rw [bind_done hwatched, hwatchedRest]
      · rw [bind_done hstep, hrest]
    | refused hk hwatchedRest hrest =>
      apply refused hk
      · rw [bind_done hwatched, hwatchedRest]
      · rw [bind_done hstep, hrest]
  | refused hm hwatched hstep =>
    apply refused hm
    · exact bind_failed hwatched
    · exact bind_failed hstep

/-! ## Octets and words -/

theorem position (hn : n ≤ source.octets.size) :
    Follows Watched.position Reader.position source n :=
  .done hn rfl rfl

theorem octetAt (i : Nat) (hn : n ≤ source.octets.size) :
    Follows (Watched.octetAt i) (Reader.octetAt i) source n := by
  cases hb : source.octets[i]? with
  | none => exact .refused hn (octetAt_error hb n) (Reader.octetAt_error hb n)
  | some b => exact .done hn (octetAt_ok hb n) (Reader.octetAt_ok hb n)

theorem range (start count : Nat) (hn : n ≤ source.octets.size) :
    Follows (Watched.range start count) (Reader.range start count) source n := by
  by_cases hcount : start + count ≤ source.octets.size
  · exact done hn (range_ok hcount n) (Reader.range_of_le hcount n)
  · exact refused hn (range_error hcount n) (Reader.range_error hcount n)

/-- A move that stays in the message is not refused. -/
theorem moveTo {i : Nat} (hi : i ≤ source.octets.size) :
    Follows (Watched.moveTo i) (Reader.seek i) source n :=
  .done hi (moveTo_ok hi n) (Reader.seek_ok hi n)

/-- Behind an octet that was read the message goes on or ends. -/
theorem octet (hn : n ≤ source.octets.size) : Follows Watched.octet Reader.octet source n := by
  apply (position hn).bind
  intro i m hi hm
  apply (octetAt i hm).bind
  intro b k hb hk
  have hnext : i + 1 ≤ source.octets.size :=
    (Array.getElem?_eq_some_iff.mp (Reader.octetAt_inv hb).1).1
  exact (Follows.done hnext (moveTo_ok hnext k) rfl).bind fun _ _ _ hend => pure hend b

theorem word16 (hn : n ≤ source.octets.size) : Follows Watched.word16 Reader.word16 source n :=
  (octet hn).bind fun _ _ _ hlo => (octet hlo).bind fun _ _ _ hend => pure hend _

theorem word32 (hn : n ≤ source.octets.size) : Follows Watched.word32 Reader.word32 source n :=
  (octet hn).bind fun _ _ _ hb => (octet hb).bind fun _ _ _ hc => (octet hc).bind fun _ _ _ hd =>
    (octet hd).bind fun _ _ _ hend => pure hend _

theorem times {watched : Watched α} {step : Reader α}
    (h : ∀ m, m ≤ source.octets.size → Follows watched step source m) (count : Nat)
    (hn : n ≤ source.octets.size) :
    Follows (Watched.times count watched) (Reader.times count step) source n := by
  induction count generalizing n with
  | zero => exact pure hn []
  | succ count ih =>
    exact (h n hn).bind fun value _ _ hrest => (ih hrest).bind fun values _ _ hend =>
      pure hend (value :: values)

end Follows

/-! ## Names -/

/-- How following a name ends under watch, from a cursor at `n` on. The cursor moves
    only as long as no pointer has been followed. -/
def walked (walk : Name.Walk) (jumps n : Nat) : EStateM.Result Stop Nat (List Octets) :=
  match walk.labels with
  | .ok labels => .ok labels (if jumps = 0 then walk.resume.getD n else n)
  | .error cause => .error (.refused cause) (if jumps = 0 then walk.resume.getD n else n)

theorem walked_refused (cause : WireError) (jumps n : Nat) :
    walked ⟨.error cause, none⟩ jumps n = .error (.refused cause) n := by
  rw [walked, Option.getD_none, ite_self]

/-- Moving the cursor on the way comes to the same as moving it at the end. -/
theorem labels_eq (octets : Array UInt8) (start jumps used n : Nat) :
    labels start jumps used octets n = walked (Name.walk octets start jumps used) jumps n := by
  fun_induction Name.walk octets start jumps used generalizing n with
  | case1 start jumps used hb =>
    rw [labels, bind_failed (octetAt_error hb n), walked_refused]
  | case2 start jumps used b hb hpointer hjumps =>
    rw [labels, bind_done (octetAt_ok hb n), if_pos hpointer, if_pos hjumps, walked_refused]
    rfl
  | case3 start jumps used b hb hpointer hjumps hlo =>
    rw [labels, bind_done (octetAt_ok hb n), if_pos hpointer, if_neg hjumps,
      bind_failed (octetAt_error hlo n), walked_refused]
  | case4 start jumps used b hb hpointer hjumps lo hlo ih =>
    have hbehind : start + 2 ≤ octets.size := (Array.getElem?_eq_some_iff.mp hlo).1
    rw [labels, bind_done (octetAt_ok hb n), if_pos hpointer, if_neg hjumps,
      bind_done (octetAt_ok hlo n), bind_done (leave_ok hbehind jumps n), ih, walked, walked,
      if_neg (Nat.succ_ne_zero jumps), Option.getD_some]
  | case5 start jumps used b hb hpointer hreserved =>
    rw [labels, bind_done (octetAt_ok hb n), if_neg hpointer, if_pos hreserved, walked_refused]
    rfl
  | case6 start jumps used b hb hpointer hreserved hzero =>
    have hbehind : start + 1 ≤ octets.size := (Array.getElem?_eq_some_iff.mp hb).1
    rw [labels, bind_done (octetAt_ok hb n), if_neg hpointer, if_neg hreserved, if_pos hzero]
    rw [bind_done (leave_ok hbehind jumps n), walked, Option.getD_some]
    rfl
  | case7 start jumps used b hb hpointer hreserved hzero hmax =>
    rw [labels, bind_done (octetAt_ok hb n), if_neg hpointer, if_neg hreserved, if_neg hzero,
      if_pos hmax, walked_refused]
    rfl
  | case8 start jumps used b hb hpointer hreserved hzero hmax hend label rest ih =>
    rw [labels, bind_done (octetAt_ok hb n), if_neg hpointer, if_neg hreserved, if_neg hzero,
      if_neg hmax, bind_done (range_ok hend n)]
    have hrest := ih n
    rw [walked] at hrest ⊢
    cases hlabels : rest.labels with
    | error cause =>
      rw [show (Name.walk _ _ _ _).labels = .error cause from hlabels] at hrest
      rw [bind_failed hrest]
      rfl
    | ok labels =>
      rw [show (Name.walk _ _ _ _).labels = .ok labels from hlabels] at hrest
      rw [bind_done hrest]
      rfl
  | case9 start jumps used b hb hpointer hreserved hzero hmax hend =>
    rw [labels, bind_done (octetAt_ok hb n), if_neg hpointer, if_neg hreserved, if_neg hzero,
      if_neg hmax, bind_failed (range_error hend n), walked_refused]

namespace Follows

theorem name (hn : n ≤ source.octets.size) : Follows Watched.name Reader.name source n := by
  have hlabels := labels_eq source.octets n 0 0 n
  have hname := Reader.name_walk source n
  have hresume : (Name.walk source.octets n 0 0).resume.getD n ≤ source.octets.size := by
    cases hwalk : (Name.walk source.octets n 0 0).resume with
    | none => exact hn
    | some i => exact Name.resume_le_size hwalk
  rw [walked, if_pos rfl] at hlabels
  cases hwalk : (Name.walk source.octets n 0 0).labels with
  | error cause =>
    rw [hwalk] at hlabels hname
    apply refused hresume _ hname
    rw [Watched.name, bind_done (position_ok source.octets n), bind_failed hlabels]
  | ok labels =>
    rw [hwalk] at hlabels hname
    apply done hresume _ hname
    rw [Watched.name, bind_done (position_ok source.octets n), bind_done hlabels]
    rfl

/-! ## Records -/

theorem chunks (start stop : Nat) (hn : n ≤ source.octets.size) :
    Follows (Watched.chunks start stop) (Reader.chunks start stop) source n := by
  fun_induction Reader.chunks start stop generalizing n with
  | case1 start h ih =>
    rw [Watched.chunks, dif_pos h]
    apply (octetAt start hn).bind
    intro length m _ hm
    -- The next text starts behind the length of this one, if not at the end.
    have hnext : start + 1 ≤ min (start + 1 + length.toNat) stop := by omega
    show Follows (minus _ _ >>= _) _ source m
    rw [minus, if_pos hnext, pure_bind]
    apply (range _ _ hm).bind
    intro chunk k _ hk
    exact (ih length hk).bind fun chunks _ _ hend => pure hend _
  | case2 start h =>
    rw [Watched.chunks, dif_neg h]
    exact pure hn []

/-- Data of every type. Where their length does not suit the type, nothing is read. -/
theorem recordData (type : RecordType) (start : Nat) (length : UInt16)
    (hn : n ≤ source.octets.size) :
    Follows (Watched.recordData type start length) (Reader.recordData type start length)
      source n := by
  have hname : ∀ make : String → RecordData, Follows (Watched.name >>= fun host =>
      Pure.pure (make host)) (Reader.name >>= fun host => Pure.pure (make host)) source n :=
    fun make => (name hn).bind fun host _ _ hend => pure hend (make host)
  cases type with
  | a =>
    by_cases hlength : length = 4
    · rw [Watched.recordData, Reader.recordData, if_pos hlength, if_pos hlength]
      exact (word32 hn).bind fun _ _ _ hend => pure hend _
    · rw [Watched.recordData, Reader.recordData, if_neg hlength, if_neg hlength]
      exact pure hn _
  | aaaa =>
    by_cases hlength : length = 16
    · rw [Watched.recordData, Reader.recordData, if_pos hlength, if_pos hlength]
      exact (range start 16 hn).bind fun _ _ _ hend => pure hend _
    · rw [Watched.recordData, Reader.recordData, if_neg hlength, if_neg hlength]
      exact pure hn _
  | ns => exact hname .ns
  | cname => exact hname .cname
  | ptr => exact hname .ptr
  | srv =>
    exact (word16 hn).bind fun _ _ _ hweight => (word16 hweight).bind fun _ _ _ hport =>
      (word16 hport).bind fun _ _ _ hhost => (name hhost).bind fun _ _ _ hend => pure hend _
  | mx => exact (word16 hn).bind fun _ _ _ hhost => (name hhost).bind fun _ _ _ hend => pure hend _
  | soa =>
    apply (name hn).bind
    intro primary _ _ hmailbox
    apply (name hmailbox).bind
    intro mailbox _ _ hserial
    exact (word32 hserial).bind fun _ _ _ hrefresh => (word32 hrefresh).bind fun _ _ _ hretry =>
      (word32 hretry).bind fun _ _ _ hexpire => (word32 hexpire).bind fun _ _ _ hminimum =>
        (word32 hminimum).bind fun _ _ _ hend => pure hend _
  | txt => exact (chunks start _ hn).bind fun _ _ _ hend => pure hend _
  | _ => exact pure hn _

/-- The cursor is put behind the data, which lie in the message. -/
theorem record (hn : n ≤ source.octets.size) : Follows Watched.record Reader.record source n := by
  apply (name hn).bind
  intro owner _ _ htype
  apply (word16 htype).bind
  intro type _ _ hcls
  apply (word16 hcls).bind
  intro cls _ _ httl
  apply (word32 httl).bind
  intro ttl _ _ hlength
  apply (word16 hlength).bind
  intro length _ _ hposition
  apply (position hposition).bind
  intro start _ _ hrange
  apply (range start length.toNat hrange).bind
  intro _ m hdata hm
  have hbehind : ∀ (record : Record) (k : Nat), Follows
      (Watched.moveTo (start + length.toNat) >>= fun _ => Pure.pure record)
      (Reader.seek (start + length.toNat) >>= fun _ => Pure.pure record) source k :=
    fun record k => (moveTo (Reader.range_inv hdata).1).bind fun _ _ _ hend => pure hend record
  cases RecordType.ofNumber type with
  | opt => exact hbehind _ m
  | _ => exact (recordData _ start length hm).bind fun data k _ _ => hbehind _ k

/-! ## Messages -/

theorem header (hn : n ≤ source.octets.size) : Follows Watched.header Reader.header source n := by
  rw [Reader.header_eq]
  exact (word16 hn).bind fun _ _ _ hflags => (word16 hflags).bind fun _ _ _ hquestions =>
    (word16 hquestions).bind fun _ _ _ hanswers => (word16 hanswers).bind fun _ _ _ hauthorities =>
      (word16 hauthorities).bind fun _ _ _ hadditionals =>
        (word16 hadditionals).bind fun _ _ _ hend => pure hend _

theorem question (hn : n ≤ source.octets.size) :
    Follows Watched.question Reader.question source n :=
  (name hn).bind fun _ _ _ htype => (word16 htype).bind fun _ _ _ hcls =>
    (word16 hcls).bind fun _ _ _ hend => pure hend _

/-- Reading a message never leaves it. -/
theorem message (hn : n ≤ source.octets.size) :
    Follows Watched.message Reader.message source n := by
  apply (header hn).bind
  intro header _ _ hquestions
  apply (times (fun _ => question) header.questionCount.toNat hquestions).bind
  intro questions _ _ hanswers
  apply (times (fun _ => record) header.answerCount.toNat hanswers).bind
  intro answers _ _ hauthorities
  apply (times (fun _ => record) header.authorityCount.toNat hauthorities).bind
  intro authorities _ _ hadditionals
  apply (times (fun _ => record) header.additionalCount.toNat hadditionals).bind
  intro additionals _ _ hend
  exact pure hend _

end Follows

end Watched

end PassiveDns.Dns
