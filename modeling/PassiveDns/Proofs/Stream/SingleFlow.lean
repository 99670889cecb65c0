/-
  PassiveDns.Proofs.Stream.SingleFlow

  A flow by itself. `Kept` is what connections keep of one flow, and a step on it sees
  nothing else. Whatever connections are told of other flows, what they keep and give of
  one flow is what the flow keeps and gives by itself, told its own segments and every
  flush (`messagesFor_messages`, `kept_after`).
-/
import PassiveDns.Proofs.Stream.Isolation

namespace PassiveDns.Stream

/-! ## What is kept of a flow -/

/-- What connections keep of a flow: the flow while it is open, and when it was closed if
    it was closed lately. -/
structure Kept where
  live : Option Live
  closed : Option Instant
deriving Repr, DecidableEq, Inhabited

namespace Kept

/-- Of a flow of which nothing is known. -/
def nothing : Kept := ⟨none, none⟩

/-- Hands a segment to the flow. -/
def deliver (capacity : Nat) (kept : Kept) (segment : TcpSegment) (now : Instant) :
    List Carried × Kept :=
  let before := kept.live.getD (.ofSegment capacity segment now)
  let (messages, after) := { before with lastSeen := now }.take segment
  if after.order.isFinished then (messages, ⟨none, some now⟩)
  else (messages, ⟨some after, kept.closed⟩)

/-- Takes a segment of the flow. -/
def assemble (capacity : Nat) (kept : Kept) (segment : TcpSegment) (now : Instant) :
    List Carried × Kept :=
  if segment.rst then ([], ⟨none, some now⟩)
  else if !segment.syn && kept.closed.isSome then ([], kept)
  else
    let reopened := if segment.syn then { kept with closed := none } else kept
    if kept.live.isNone && segment.payload.isEmpty && !segment.syn && !segment.fin
    then ([], reopened)
    else reopened.deliver capacity segment now

/-- What is left of the flow when it ends. -/
def rest (live : Option Live) : List Carried :=
  match live with
  | some flow => flow.close.1
  | none => []

/-- Takes a step. -/
def perform (capacity : Nat) (kept : Kept) : Input → List Carried × Kept
  | .segment segment now => kept.assemble capacity segment now
  | .flushOlderThan cutoff =>
    (rest (kept.live.filter fun flow => flow.lastSeen < cutoff),
      ⟨kept.live.filter fun flow => cutoff ≤ flow.lastSeen,
        kept.closed.filter fun time => cutoff ≤ time⟩)
  | .flushAll => (rest kept.live, nothing)

/-- What is kept after some steps. -/
def after (capacity : Nat) (kept : Kept) (inputs : List Input) : Kept :=
  inputs.foldl (fun kept input => (kept.perform capacity input).2) kept

/-- All messages of some steps. -/
def messages (capacity : Nat) (kept : Kept) : List Input → List Carried
  | [] => []
  | input :: rest =>
    (kept.perform capacity input).1 ++ (kept.perform capacity input).2.messages capacity rest

/-- Flushes give nothing of a flow of which nothing is known. -/
theorem perform_nothing (capacity : Nat) {input : Input} (h : input.segments = []) :
    nothing.perform capacity input = ([], nothing) := by
  cases input with
  | segment segment now => cases h
  | flushOlderThan cutoff => rfl
  | flushAll => rfl

theorem messages_nothing (capacity : Nat) {inputs : List Input}
    (h : ∀ input ∈ inputs, input.segments = []) : nothing.messages capacity inputs = [] := by
  induction inputs with
  | nil => rfl
  | cons input rest ih =>
    rw [messages, perform_nothing capacity (h input List.mem_cons_self)]
    exact ih fun i hi => h i (List.mem_cons_of_mem _ hi)

end Kept

/-- What connections keep of a flow. -/
def Connections.kept (state : Connections) (flow : Flow) : Kept :=
  ⟨state.live.get? flow, state.closed.get? flow⟩

/-! ## The steps of a flow -/

/-- Whether a step concerns a flow. A segment concerns its own flow, a flush every one. -/
def Input.concerns (flow : Flow) : Input → Bool
  | segment s _ => Flow.ofSegment s = flow
  | flushOlderThan _ => true
  | flushAll => true

/-- The steps that concern a flow. -/
def inputsFor (flow : Flow) (inputs : List Input) : List Input :=
  inputs.filter (Input.concerns flow)

variable {flow : Flow}

theorem inputsFor_cons_of_pos {input : Input} (h : input.concerns flow = true)
    (rest : List Input) : inputsFor flow (input :: rest) = input :: inputsFor flow rest :=
  List.filter_cons_of_pos h

theorem inputsFor_cons_of_neg {input : Input} (h : input.concerns flow = false)
    (rest : List Input) : inputsFor flow (input :: rest) = inputsFor flow rest :=
  List.filter_cons_of_neg (Bool.not_eq_true _ ▸ h)

/-- The steps of two flows have only the flushes in common. -/
theorem segments_of_concerns {other : Flow} (hne : other ≠ flow) {input : Input}
    (h : input.concerns flow = true) (h' : input.concerns other = true) : input.segments = [] := by
  cases input with
  | segment s now =>
    have hflow : Flow.ofSegment s = flow := of_decide_eq_true h
    have hother : Flow.ofSegment s = other := of_decide_eq_true h'
    exact absurd (hother.symm.trans hflow) hne
  | flushOlderThan cutoff => rfl
  | flushAll => rfl

namespace Connections

variable {state : Connections} {segment : TcpSegment} {now : Instant}

theorem taken_eq (state : Connections) (segment : TcpSegment) (now : Instant) :
    state.taken segment now =
      { (state.kept (Flow.ofSegment segment)).live.getD (.ofSegment state.capacity segment now)
        with lastSeen := now }.take segment := by
  have hflow : state.flowFor segment now =
      (state.kept (Flow.ofSegment segment)).live.getD (.ofSegment state.capacity segment now) := by
    rw [flowFor, kept]
    cases state.live.get? (Flow.ofSegment segment) <;> rfl
  rw [taken, hflow]

/-- Handing a segment to its flow sees and changes only what is kept of the flow. -/
theorem deliver_kept (state : Connections) (segment : TcpSegment) (now : Instant) :
    (state.deliver segment now).1.messages =
        ((state.kept (Flow.ofSegment segment)).deliver state.capacity segment now).1 ∧
      (state.deliver segment now).2.kept (Flow.ofSegment segment) =
        ((state.kept (Flow.ofSegment segment)).deliver state.capacity segment now).2 := by
  obtain ⟨hmessages, hstate⟩ := deliver_eq state segment now
  rw [hmessages, hstate, Kept.deliver, taken_eq]
  dsimp only
  cases (Live.take _ segment).2.order.isFinished with
  | true => exact ⟨rfl, by simp [kept]⟩
  | false => exact ⟨rfl, by simp [kept]⟩

/-- So does taking a segment of the flow. -/
theorem assemble_kept (state : Connections) (segment : TcpSegment) (now : Instant) :
    (state.assemble segment now).1.messages =
        ((state.kept (Flow.ofSegment segment)).assemble state.capacity segment now).1 ∧
      (state.assemble segment now).2.kept (Flow.ofSegment segment) =
        ((state.kept (Flow.ofSegment segment)).assemble state.capacity segment now).2 := by
  have hcases := assembling state segment now
  generalize state.assemble segment now = result at hcases ⊢
  cases hcases with
  | reset hrst =>
    rw [Kept.assemble, if_pos hrst]
    exact ⟨rfl, by simp [reset, kept]⟩
  | late hrst hsyn hclosed =>
    have hlate : (!segment.syn && (state.kept (Flow.ofSegment segment)).closed.isSome) = true := by
      rw [hsyn]
      exact hclosed
    rw [Kept.assemble, if_neg (ne_true_of_eq_false hrst), if_pos hlate]
    exact ⟨rfl, rfl⟩
  | ignored hrst hsyn hclosed hlive hpayload hfin =>
    have hlate : (!segment.syn && (state.kept (Flow.ofSegment segment)).closed.isSome) = false := by
      rw [hsyn]
      exact hclosed
    have hnone : (state.kept (Flow.ofSegment segment)).live.isNone = true := by
      rw [← Option.not_isSome, kept]
      exact congrArg (!·) hlive
    rw [Kept.assemble, if_neg (ne_true_of_eq_false hrst), if_neg (ne_true_of_eq_false hlate),
      hnone, hpayload, hsyn, hfin]
    exact ⟨rfl, rfl⟩
  | delivered hrst hopen hlive =>
    have hlate : (!segment.syn && (state.kept (Flow.ofSegment segment)).closed.isSome) = false := by
      rcases hopen with hsyn | hclosed
      · rw [hsyn]
        rfl
      · rw [Bool.and_eq_false_iff]
        exact .inr hclosed
    have hbare : ((state.kept (Flow.ofSegment segment)).live.isNone && segment.payload.isEmpty &&
        !segment.syn && !segment.fin) = false := by
      rw [← Option.not_isSome]
      rcases hlive with hlive | hpayload | hsyn | hfin
      · have hsome : (state.kept (Flow.ofSegment segment)).live.isSome = true := hlive
        simp [hsome]
      · simp [hpayload]
      · simp [hsyn]
      · simp [hfin]
    rw [Kept.assemble, if_neg (ne_true_of_eq_false hrst), if_neg (ne_true_of_eq_false hlate)]
    dsimp only
    rw [if_neg (ne_true_of_eq_false hbare)]
    -- a SYN first forgets that the flow was closed
    cases hsyn : segment.syn with
    | true =>
      have hforgets : ({ state with closed := state.closed.erase (Flow.ofSegment segment) } :
          Connections).kept (Flow.ofSegment segment) =
          { state.kept (Flow.ofSegment segment) with closed := none } := by
        simp [kept]
      have hdeliver := deliver_kept
        { state with closed := state.closed.erase (Flow.ofSegment segment) } segment now
      rw [hforgets] at hdeliver
      exact hdeliver
    | false => exact deliver_kept state segment now

theorem rest_eq (keyed : state.Keyed) (keep : Flow → Live → Bool) (flow : Flow) :
    messagesFor flow (closeAll (state.live.filter keep).entries).messages =
      Kept.rest ((state.live.get? flow).filter (keep flow)) := by
  have hkeyed : ∀ entry ∈ (state.live.filter keep).entries, entry.2.key = entry.1 :=
    fun entry hentry => keyed entry (Table.mem_filter.mp hentry).1
  obtain ⟨hnone, hsome⟩ := messagesFor_closeAll flow hkeyed (state.live.filter keep).distinct
  rw [← Table.get?_filter]
  cases hget : (state.live.filter keep).get? flow with
  | none => exact hnone (Table.get?_eq_none_iff.mp hget)
  | some live => exact hsome live (Table.mem_of_get? hget)

/-- A step that concerns a flow does to what is kept of it what it does to the flow by
    itself. -/
theorem perform_kept (keyed : state.Keyed) {input : Input} (h : input.concerns flow = true) :
    messagesFor flow (state.perform input).1.messages =
        ((state.kept flow).perform state.capacity input).1 ∧
      (state.perform input).2.kept flow = ((state.kept flow).perform state.capacity input).2 := by
  cases input with
  | segment segment now =>
    obtain rfl : Flow.ofSegment segment = flow := of_decide_eq_true h
    obtain ⟨hmessages, hkept⟩ := assemble_kept state segment now
    refine ⟨?_, hkept⟩
    rw [← Kept.perform] at hmessages
    rw [← hmessages]
    exact messagesFor_of_all (ofCarried_assemble keyed)
  | flushOlderThan cutoff =>
    refine ⟨rest_eq keyed _ flow, ?_⟩
    show Kept.mk (Table.get? (state.live.filter _) flow) (Table.get? (state.closed.filter _) flow) =
      Kept.mk _ _
    rw [Table.get?_filter, Table.get?_filter]
    rfl
  | flushAll =>
    refine ⟨?_, rfl⟩
    obtain ⟨hnone, hsome⟩ := messagesFor_closeAll flow keyed state.live.distinct
    show messagesFor flow (closeAll state.live.entries).messages = Kept.rest (state.live.get? flow)
    cases hget : state.live.get? flow with
    | none => exact hnone (Table.get?_eq_none_iff.mp hget)
    | some live => exact hsome live (Table.mem_of_get? hget)

/-- Any other step leaves the flow alone. -/
theorem perform_kept_of_other (keyed : state.Keyed) {input : Input}
    (h : input.concerns flow = false) :
    messagesFor flow (state.perform input).1.messages = [] ∧
      (state.perform input).2.kept flow = state.kept flow := by
  cases input with
  | segment segment now =>
    have hne : Flow.ofSegment segment ≠ flow := of_decide_eq_false h
    obtain ⟨hlive, hclosed⟩ :
        (state.assemble segment now).2.live.get? flow = state.live.get? flow ∧
          (state.assemble segment now).2.closed.get? flow = state.closed.get? flow :=
      assemble_other hne
    constructor
    · exact messagesFor_of_none fun m hm heq => hne ((ofCarried_assemble keyed m hm).symm.trans heq)
    · show Kept.mk _ _ = Kept.mk _ _
      rw [← hlive, ← hclosed]
      rfl
  | flushOlderThan cutoff => cases h
  | flushAll => cases h

/-! ## Whole runs -/

/-- What connections give of a flow is what the flow gives by itself. -/
theorem messagesFor_messages (keyed : state.Keyed) (flow : Flow) (inputs : List Input) :
    messagesFor flow (state.messages inputs) =
      (state.kept flow).messages state.capacity (inputsFor flow inputs) := by
  induction inputs generalizing state with
  | nil => rfl
  | cons input rest ih =>
    have hrest := ih (perform_keyed keyed input)
    rw [perform_capacity] at hrest
    rw [messages, messagesFor_append, hrest]
    cases h : input.concerns flow with
    | true =>
      obtain ⟨hmessages, hkept⟩ := perform_kept keyed h
      rw [inputsFor_cons_of_pos h, Kept.messages, hmessages, hkept]
    | false =>
      obtain ⟨hmessages, hkept⟩ := perform_kept_of_other keyed h
      rw [inputsFor_cons_of_neg h, hmessages, hkept, List.nil_append]

/-- What connections keep of a flow is what the flow keeps by itself. -/
theorem kept_after (keyed : state.Keyed) (flow : Flow) (inputs : List Input) :
    (state.after inputs).kept flow =
      (state.kept flow).after state.capacity (inputsFor flow inputs) := by
  induction inputs generalizing state with
  | nil => rfl
  | cons input rest ih =>
    have hrest := ih (perform_keyed keyed input)
    rw [perform_capacity] at hrest
    show ((state.perform input).2.after rest).kept flow = _
    rw [hrest]
    cases h : input.concerns flow with
    | true =>
      rw [inputsFor_cons_of_pos h, (perform_kept keyed h).2]
      rfl
    | false => rw [inputsFor_cons_of_neg h, (perform_kept_of_other keyed h).2]

/-- Connections that are told only what concerns a flow give only messages of the flow. -/
theorem messages_inputsFor (capacity : Nat) (flow : Flow) (inputs : List Input) :
    messagesFor flow ((empty capacity).messages (inputsFor flow inputs)) =
      (empty capacity).messages (inputsFor flow inputs) := by
  apply messagesFor_of_all
  intro m hm
  by_contra hne
  -- of the flow of such a message they are told only flushes, so there is no such message
  have hnone : messagesFor (Flow.ofCarried m)
      ((empty capacity).messages (inputsFor flow inputs)) = [] := by
    rw [messagesFor_messages (keyed_empty capacity)]
    apply Kept.messages_nothing
    intro input hinput
    obtain ⟨hinput, hother⟩ := List.mem_filter.mp hinput
    exact segments_of_concerns hne (List.mem_filter.mp hinput).2 hother
  have hmem : m ∈ messagesFor (Flow.ofCarried m)
      ((empty capacity).messages (inputsFor flow inputs)) :=
    List.mem_filter.mpr ⟨hm, decide_eq_true rfl⟩
  rw [hnone] at hmem
  exact List.not_mem_nil hmem

end Connections

end PassiveDns.Stream
