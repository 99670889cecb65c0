/-
  PassiveDns.Proofs.Duplicates

  What a duplicate is. Of the packets that no reset divides, the first with its hash is new and
  all others are duplicates, since exactly their hashes are held (`Undivided.mem_hashes`). Only
  the interval moves the time from which the next interval is counted, and this is never later
  than a packet whose hash is held: so a duplicate follows its packet within an interval
  (`duplicates_within_window`).
-/
import Mathlib.Data.List.Induction
import Mathlib.Data.List.Nodup
import Mathlib.Tactic.Common
import PassiveDns.Admission

namespace PassiveDns

/-- A packet, and when it came. -/
abbrev Arrived := Octets × Instant

/-- The hash that stands for a packet. -/
def Arrived.hash (packet : Arrived) : UInt64 := Octets.fnv1a64 packet.1

namespace RecentPackets

variable {recent : RecentPackets} {packet : Arrived} {old window packets : List Arrived}

/-! ## One packet -/

/-- Whether a packet is a duplicate. -/
def isDuplicate (recent : RecentPackets) (packet : Arrived) : Bool :=
  (recent.check packet.1 packet.2).1

/-- What is remembered behind a packet. -/
def next (recent : RecentPackets) (packet : Arrived) : RecentPackets :=
  (recent.check packet.1 packet.2).2

/-- A packet finds a whole interval over, which is a reset. -/
def Expires (recent : RecentPackets) (packet : Arrived) : Prop :=
  recent.interval ≤ packet.2 - recent.lastReset

/-- A packet whose hash is not held finds no room for it, which is a reset. -/
def Overflows (recent : RecentPackets) (packet : Arrived) : Prop :=
  packet.hash ∉ (recent.current packet.2).hashes ∧
    recent.capacity ≤ (recent.current packet.2).hashes.length

/-- A packet makes a reset. -/
def Resets (recent : RecentPackets) (packet : Arrived) : Prop :=
  recent.Expires packet ∨ recent.Overflows packet

/-- All that a check does: a packet is a duplicate if its hash is held. Else it is new and its
    hash is held from then on, beside the others or, behind a reset, alone. -/
inductive Turn (recent : RecentPackets) (packet : Arrived) : Bool → RecentPackets → Prop where
  | duplicate (quiet : ¬recent.Resets packet) (held : packet.hash ∈ recent.hashes) :
    Turn recent packet true recent
  | new (quiet : ¬recent.Resets packet) (free : packet.hash ∉ recent.hashes)
      (room : recent.hashes.length < recent.capacity) :
    Turn recent packet false { recent with hashes := packet.hash :: recent.hashes }
  | expired (expires : recent.Expires packet) :
    Turn recent packet false { recent with hashes := [packet.hash], lastReset := packet.2 }
  | overflown (lasts : ¬recent.Expires packet) (overflows : recent.Overflows packet) :
    Turn recent packet false { recent with hashes := [packet.hash] }

theorem current_of_expires (h : recent.Expires packet) :
    recent.current packet.2 = { recent with hashes := [], lastReset := packet.2 } :=
  if_pos h

theorem current_of_not_expires (h : ¬recent.Expires packet) :
    recent.current packet.2 = recent :=
  if_neg h

theorem overflows_iff_of_not_expires (h : ¬recent.Expires packet) :
    recent.Overflows packet ↔
      packet.hash ∉ recent.hashes ∧ recent.capacity ≤ recent.hashes.length := by
  rw [Overflows, current_of_not_expires h]

theorem turn (recent : RecentPackets) (packet : Arrived) :
    recent.Turn packet (recent.isDuplicate packet) (recent.next packet) := by
  have hcheck : recent.check packet.1 packet.2 =
      if (recent.current packet.2).hashes.contains packet.hash then
        (true, recent.current packet.2)
      else (false, (recent.current packet.2).remember packet.hash) := rfl
  rw [isDuplicate, next, hcheck]
  by_cases hexpires : recent.Expires packet
  · -- behind the reset nothing is held, and the hash is alone with room or without
    rw [current_of_expires hexpires, List.contains_nil, if_neg Bool.false_ne_true, remember,
      ite_self]
    exact .expired hexpires
  · have hoverflows := overflows_iff_of_not_expires hexpires
    rw [current_of_not_expires hexpires]
    by_cases hheld : packet.hash ∈ recent.hashes
    · rw [if_pos (List.contains_iff_mem.mpr hheld)]
      refine .duplicate (not_or.mpr ⟨hexpires, fun hover => ?_⟩) hheld
      exact (hoverflows.mp hover).1 hheld
    · rw [if_neg fun hcontains => hheld (List.contains_iff_mem.mp hcontains), remember]
      by_cases hfull : recent.capacity ≤ recent.hashes.length
      · rw [if_pos hfull]
        exact .overflown hexpires (hoverflows.mpr ⟨hheld, hfull⟩)
      · rw [if_neg hfull]
        refine .new (not_or.mpr ⟨hexpires, fun hover => ?_⟩) hheld (Nat.lt_of_not_le hfull)
        exact hfull (hoverflows.mp hover).2

/-- A reset leaves only the hash of the packet that made it, which is new. -/
theorem next_of_resets (h : recent.Resets packet) :
    recent.isDuplicate packet = false ∧ (recent.next packet).hashes = [packet.hash] := by
  have hturn := recent.turn packet
  generalize recent.isDuplicate packet = answer, recent.next packet = next at hturn ⊢
  cases hturn with
  | duplicate quiet => exact absurd h quiet
  | new quiet => exact absurd h quiet
  | expired => exact ⟨rfl, rfl⟩
  | overflown => exact ⟨rfl, rfl⟩

/-- Without a reset a packet is a duplicate if its hash is held, and it is held then beside all
    others. -/
theorem next_of_quiet (h : ¬recent.Resets packet) :
    (recent.isDuplicate packet = true ↔ packet.hash ∈ recent.hashes) ∧
      (∀ hash, hash ∈ (recent.next packet).hashes ↔ hash ∈ recent.hashes ∨ hash = packet.hash) ∧
      (recent.next packet).lastReset = recent.lastReset := by
  have hturn := recent.turn packet
  generalize recent.isDuplicate packet = answer, recent.next packet = next at hturn ⊢
  cases hturn with
  | duplicate quiet held =>
    refine ⟨iff_of_true rfl held, fun hash => ⟨.inl, ?_⟩, rfl⟩
    rintro (hmem | rfl)
    · exact hmem
    · exact held
  | new quiet free =>
    refine ⟨iff_of_false Bool.false_ne_true free, fun hash => ?_, rfl⟩
    rw [List.mem_cons, or_comm]
  | expired expires => exact absurd (.inl expires) h
  | overflown _ overflows => exact absurd (.inr overflows) h

/-- Only an interval that is over moves the time of the last reset. -/
theorem lastReset_next (recent : RecentPackets) (packet : Arrived) :
    (recent.Expires packet ∧ (recent.next packet).lastReset = packet.2) ∨
      (¬recent.Expires packet ∧ (recent.next packet).lastReset = recent.lastReset) := by
  have hturn := recent.turn packet
  generalize recent.isDuplicate packet = answer, recent.next packet = next at hturn ⊢
  cases hturn with
  | duplicate quiet => exact .inr ⟨fun hexpires => quiet (.inl hexpires), rfl⟩
  | new quiet => exact .inr ⟨fun hexpires => quiet (.inl hexpires), rfl⟩
  | expired expires => exact .inl ⟨expires, rfl⟩
  | overflown lasts => exact .inr ⟨lasts, rfl⟩

/-- The limits under which hashes are held: each once, and no more than there is room for, or one
    where there is no room. -/
structure Bounded (interval capacity : Nat) (recent : RecentPackets) : Prop where
  interval_eq : recent.interval = interval
  capacity_eq : recent.capacity = capacity
  distinct : recent.hashes.Nodup
  length_le : recent.hashes.length ≤ max capacity 1

theorem Bounded.next {interval capacity : Nat} (h : recent.Bounded interval capacity)
    (packet : Arrived) : (recent.next packet).Bounded interval capacity := by
  obtain ⟨rfl, rfl, hdistinct, hlength⟩ := h
  have hturn := recent.turn packet
  generalize recent.isDuplicate packet = answer, recent.next packet = next at hturn ⊢
  cases hturn with
  | duplicate => exact ⟨rfl, rfl, hdistinct, hlength⟩
  | new _ free room =>
    exact ⟨rfl, rfl, hdistinct.cons free, Nat.le_trans room (Nat.le_max_left _ _)⟩
  | expired => exact ⟨rfl, rfl, List.nodup_singleton _, Nat.le_max_right _ _⟩
  | overflown => exact ⟨rfl, rfl, List.nodup_singleton _, Nat.le_max_right _ _⟩

/-! ## Many packets -/

/-- What is remembered behind packets. -/
def after (recent : RecentPackets) (packets : List Arrived) : RecentPackets :=
  packets.foldl next recent

/-- Something comes about with none of the packets. -/
def Never (event : RecentPackets → Arrived → Prop) (recent : RecentPackets) :
    List Arrived → Prop
  | [] => True
  | packet :: rest => ¬event recent packet ∧ (recent.next packet).Never event rest

/-- The hashes of the packets that are new, in their order. -/
def newHashes (recent : RecentPackets) : List Arrived → List UInt64
  | [] => []
  | packet :: rest =>
    if recent.isDuplicate packet then (recent.next packet).newHashes rest
    else packet.hash :: (recent.next packet).newHashes rest

theorem after_append (recent : RecentPackets) (packets more : List Arrived) :
    recent.after (packets ++ more) = (recent.after packets).after more :=
  List.foldl_append

theorem never_append {event : RecentPackets → Arrived → Prop} {more : List Arrived} :
    recent.Never event (packets ++ more) ↔
      recent.Never event packets ∧ (recent.after packets).Never event more := by
  induction packets generalizing recent with
  | nil => exact (iff_of_eq (true_and _)).symm
  | cons packet rest ih => exact (and_congr_right fun _ => ih).trans and_assoc.symm

theorem Never.mono {event less : RecentPackets → Arrived → Prop} (h : recent.Never event packets)
    (hless : ∀ recent packet, less recent packet → event recent packet) :
    recent.Never less packets := by
  induction packets generalizing recent with
  | nil => trivial
  | cons packet rest ih => exact ⟨fun hevent => h.1 (hless _ _ hevent), ih h.2⟩

theorem Bounded.after {interval capacity : Nat} (h : recent.Bounded interval capacity)
    (packets : List Arrived) : (recent.after packets).Bounded interval capacity := by
  induction packets generalizing recent with
  | nil => exact h
  | cons packet rest ih => exact ih (h.next packet)

/-- Without a reset the hashes of packets come to those that are held. -/
theorem mem_hashes_after (h : recent.Never Resets packets) (hash : UInt64) :
    hash ∈ (recent.after packets).hashes ↔
      hash ∈ recent.hashes ∨ hash ∈ packets.map Arrived.hash := by
  induction packets generalizing recent with
  | nil => simp [after]
  | cons packet rest ih =>
    have hnext := (next_of_quiet h.1).2.1 hash
    rw [List.map_cons, List.mem_cons, ← or_assoc, ← hnext]
    exact ih h.2

/-- Without a reset the hashes of new packets come in front of those that are held. -/
theorem hashes_after (h : recent.Never Resets packets) :
    (recent.after packets).hashes = (recent.newHashes packets).reverse ++ recent.hashes := by
  induction packets generalizing recent with
  | nil => rfl
  | cons packet rest ih =>
    have hrest : (recent.after (packet :: rest)).hashes =
        ((recent.next packet).newHashes rest).reverse ++ (recent.next packet).hashes := ih h.2
    rw [hrest, newHashes]
    have hturn := recent.turn packet
    generalize recent.isDuplicate packet = answer, recent.next packet = next at hturn ⊢
    cases hturn with
    | duplicate => rfl
    | new => simp
    | expired expires => exact absurd (.inl expires) h.1
    | overflown _ overflows => exact absurd (.inr overflows) h.1

/-! ## The interval -/

/-- The interval that runs behind packets began at this time: with the last of them that found one
    over, or else at the start. -/
def Began (start : RecentPackets) (packets : List Arrived) (time : Instant) : Prop :=
  (start.lastReset = time ∧ start.Never Expires packets) ∨
    ∃ earlier packet later, packets = earlier ++ packet :: later ∧ packet.2 = time ∧
      (start.after earlier).Expires packet ∧
      (start.after (earlier ++ [packet])).Never Expires later

theorem began (start : RecentPackets) (packets : List Arrived) :
    start.Began packets (start.after packets).lastReset := by
  induction packets using List.reverseRecOn with
  | nil => exact .inl ⟨rfl, trivial⟩
  | append_singleton packets packet ih =>
    rw [after_append]
    show start.Began (packets ++ [packet]) ((start.after packets).next packet).lastReset
    rcases lastReset_next (start.after packets) packet with ⟨hexpires, htime⟩ | ⟨hlasts, htime⟩
    · exact .inr ⟨packets, packet, [], rfl, htime.symm, hexpires, trivial⟩
    · rw [htime]
      rcases ih with ⟨hstart, hnever⟩ | ⟨earlier, last, later, rfl, hlast, hexpires, hnever⟩
      · exact .inl ⟨hstart, never_append.mpr ⟨hnever, hlasts, trivial⟩⟩
      · refine .inr ⟨earlier, last, later ++ [packet], ?_, hlast, hexpires, ?_⟩
        · rw [List.append_assoc, List.cons_append]
        · refine never_append.mpr ⟨hnever, ?_, trivial⟩
          rw [← after_append, List.append_assoc, List.singleton_append]
          exact hlasts

/-- Where no interval is over the time stays. -/
theorem lastReset_after (h : recent.Never Expires packets) :
    (recent.after packets).lastReset = recent.lastReset := by
  induction packets generalizing recent with
  | nil => rfl
  | cons packet rest ih =>
    rcases lastReset_next recent packet with ⟨hexpires, -⟩ | ⟨-, htime⟩
    · exact absurd hexpires h.1
    · exact (ih h.2).trans htime

/-- There is one such time. -/
theorem Began.lastReset_eq {start : RecentPackets} {time : Instant}
    (h : start.Began packets time) : (start.after packets).lastReset = time := by
  rcases h with ⟨hstart, hnever⟩ | ⟨earlier, packet, later, rfl, rfl, hexpires, hnever⟩
  · rw [lastReset_after hnever, hstart]
  · rw [List.append_cons, after_append, lastReset_after hnever, after_append]
    rcases lastReset_next (start.after earlier) packet with ⟨-, htime⟩ | ⟨hlasts, -⟩
    · exact htime
    · exact absurd hexpires hlasts

/-- The time is that of a packet or of the start. -/
theorem lastReset_after_le {bound : Instant} (hstart : recent.lastReset ≤ bound)
    (h : ∀ packet ∈ packets, packet.2 ≤ bound) : (recent.after packets).lastReset ≤ bound := by
  induction packets generalizing recent with
  | nil => exact hstart
  | cons packet rest ih =>
    rw [List.forall_mem_cons] at h
    refine ih ?_ h.2
    rcases lastReset_next recent packet with ⟨-, htime⟩ | ⟨-, htime⟩
    · exact htime ▸ h.1
    · exact htime ▸ hstart

/-! ## Between two resets -/

/-- Behind `old` come packets that no reset divides: only the first of them may make one, and does
    unless it is the first of all. -/
structure Undivided (start : RecentPackets) (old : List Arrived) (first : Arrived)
    (rest : List Arrived) : Prop where
  begins : old = [] ∨ (start.after old).Resets first
  quiet : (start.after (old ++ [first])).Never Resets rest

section Undivided

variable {interval capacity : Nat} {start : Instant} {first : Arrived} {rest : List Arrived}

theorem bounded_after (interval capacity : Nat) (start : Instant) (packets : List Arrived) :
    ((empty interval capacity start).after packets).Bounded interval capacity := by
  have hempty : (empty interval capacity start).Bounded interval capacity :=
    ⟨rfl, rfl, List.nodup_nil, Nat.zero_le _⟩
  exact hempty.after packets

/-- Where nothing is held a packet is new, and its hash is then the only one. -/
theorem next_of_hashes_nil (h : recent.hashes = []) :
    recent.isDuplicate packet = false ∧ (recent.next packet).hashes = [packet.hash] := by
  have hturn := recent.turn packet
  generalize recent.isDuplicate packet = answer, recent.next packet = next at hturn ⊢
  cases hturn with
  | duplicate _ held =>
    rw [h] at held
    cases held
  | new =>
    rw [h]
    exact ⟨rfl, rfl⟩
  | expired => exact ⟨rfl, rfl⟩
  | overflown => exact ⟨rfl, rfl⟩

/-- The first of them is new, and its hash is then the only one. -/
theorem Undivided.first_new (h : (empty interval capacity start).Undivided old first rest) :
    ((empty interval capacity start).after old).isDuplicate first = false ∧
      ((empty interval capacity start).after (old ++ [first])).hashes = [first.hash] := by
  rw [after_append]
  rcases h.begins with rfl | hresets
  · exact next_of_hashes_nil rfl
  · exact next_of_resets hresets

/-- What is held is the hashes of these packets. -/
theorem Undivided.mem_hashes (h : (empty interval capacity start).Undivided old first rest)
    (hash : UInt64) :
    hash ∈ ((empty interval capacity start).after (old ++ first :: rest)).hashes ↔
      hash ∈ (first :: rest).map Arrived.hash := by
  rw [← List.singleton_append, ← List.append_assoc, after_append, mem_hashes_after h.quiet,
    h.first_new.2, List.map_append, List.mem_append]
  rfl

/-- Of these packets the first with its hash is new, and no other. -/
theorem Undivided.isDuplicate_iff (h : (empty interval capacity start).Undivided old first rest)
    {earlier later : List Arrived} (hsplit : first :: rest = earlier ++ packet :: later) :
    ((empty interval capacity start).after (old ++ earlier)).isDuplicate packet = true ↔
      packet.hash ∈ earlier.map Arrived.hash := by
  cases earlier with
  | nil =>
    obtain ⟨rfl, -⟩ := List.cons.inj hsplit
    rw [List.append_nil, h.first_new.1]
    exact iff_of_false Bool.false_ne_true List.not_mem_nil
  | cons packet' earlier =>
    obtain ⟨rfl, rfl⟩ := List.cons.inj hsplit
    obtain ⟨hearlier, hpacket, -⟩ := never_append.mp h.quiet
    rw [← after_append, List.append_assoc, List.singleton_append] at hpacket
    rw [(next_of_quiet hpacket).1, Undivided.mem_hashes ⟨h.begins, hearlier⟩]

/-- Behind any of these packets there is no reset. -/
theorem Undivided.quiet_behind {start : RecentPackets} (h : start.Undivided old first rest)
    {earlier later : List Arrived} (hsplit : first :: rest = earlier ++ packet :: later) :
    (start.after (old ++ (earlier ++ [packet]))).Never Resets later := by
  cases earlier with
  | nil =>
    obtain ⟨rfl, rfl⟩ := List.cons.inj hsplit
    exact h.quiet
  | cons packet' earlier =>
    obtain ⟨rfl, rfl⟩ := List.cons.inj hsplit
    have hquiet : (start.after (old ++ [first])).Never Resets (earlier ++ packet :: later) :=
      h.quiet
    rw [List.append_cons earlier, never_append, ← after_append, List.append_assoc] at hquiet
    exact hquiet.2

/-- Each hash of these packets is that of one new packet. -/
theorem Undivided.count_newHashes (h : (empty interval capacity start).Undivided old first rest)
    (hpacket : packet ∈ first :: rest) :
    (((empty interval capacity start).after old).newHashes (first :: rest)).count packet.hash =
      1 := by
  -- they are what is held behind the packets, where each is held once
  have hnew : ((empty interval capacity start).after (old ++ first :: rest)).hashes =
      (((empty interval capacity start).after old).newHashes (first :: rest)).reverse := by
    rw [← List.singleton_append, ← List.append_assoc, after_append, hashes_after h.quiet,
      h.first_new.2, List.singleton_append, newHashes, h.first_new.1, if_neg Bool.false_ne_true,
      List.reverse_cons, after_append]
    rfl
  have hdistinct := (bounded_after interval capacity start (old ++ first :: rest)).distinct
  have hmem := (h.mem_hashes packet.hash).mpr (List.mem_map_of_mem hpacket)
  rw [hnew] at hdistinct hmem
  rw [← List.count_reverse]
  exact List.count_eq_one_of_mem hdistinct hmem

/-- All packets since the last reset are such. -/
theorem exists_undivided (start : RecentPackets) {packets : List Arrived} (h : packets ≠ []) :
    ∃ old first rest, packets = old ++ first :: rest ∧ start.Undivided old first rest := by
  induction packets using List.reverseRecOn with
  | nil => exact absurd rfl h
  | append_singleton packets packet ih =>
    by_cases hfirst : packets = [] ∨ (start.after packets).Resets packet
    · exact ⟨packets, packet, [], rfl, hfirst, trivial⟩
    · obtain ⟨hpackets, hquiet⟩ := not_or.mp hfirst
      obtain ⟨old, first, rest, rfl, hundivided⟩ := ih hpackets
      refine ⟨old, first, rest ++ [packet], ?_, hundivided.begins, ?_⟩
      · rw [List.append_assoc, List.cons_append]
      · refine never_append.mpr ⟨hundivided.quiet, ?_, trivial⟩
        rw [← after_append, List.append_assoc, List.singleton_append]
        exact hquiet

end Undivided

/-! ## Duplicates -/

/-- The clock does not go back from the start on. -/
def OnClock (start : RecentPackets) (packets : List Arrived) : Prop :=
  (start.lastReset :: packets.map Prod.snd).Pairwise (· ≤ ·)

/-- A packet with the hash of this one was new, and there was no reset since. -/
structure Repeats (start : RecentPackets) (earlier : List Arrived) (original : Arrived)
    (between : List Arrived) (packet : Arrived) : Prop where
  same : original.hash = packet.hash
  new : (start.after earlier).isDuplicate original = false
  quiet : (start.after (earlier ++ [original])).Never Resets (between ++ [packet])

theorem exists_original {interval capacity : Nat} {start : Instant} {before : List Arrived}
    (h : ((empty interval capacity start).after before).isDuplicate packet = true) :
    ∃ earlier original between, before = earlier ++ original :: between ∧
      (empty interval capacity start).Repeats earlier original between packet := by
  have hquiet : ¬((empty interval capacity start).after before).Resets packet := by
    intro hresets
    rw [(next_of_resets hresets).1] at h
    cases h
  have hheld := (next_of_quiet hquiet).1.mp h
  have hbefore : before ≠ [] := by
    rintro rfl
    cases hheld
  obtain ⟨old, first, rest, rfl, hundivided⟩ := exists_undivided _ hbefore
  rw [hundivided.mem_hashes] at hheld
  -- the first of the undivided packets that has the hash
  obtain ⟨hashes, others, hsplit, hfirst⟩ := List.eq_append_cons_of_mem hheld
  obtain ⟨earlier, back, hpackets, rfl, hback⟩ := List.map_eq_append_iff.mp hsplit
  obtain ⟨original, between, rfl, hsame, rfl⟩ := List.map_eq_cons_iff.mp hback
  have hbefore : old ++ first :: rest = old ++ earlier ++ original :: between := by
    rw [hpackets, List.append_assoc]
  refine ⟨old ++ earlier, original, between, hbefore, hsame, ?_, ?_⟩
  · rw [← Bool.not_eq_true, hundivided.isDuplicate_iff hpackets, hsame]
    exact hfirst
  · rw [List.append_assoc, never_append, ← after_append, List.append_assoc, ← List.append_cons]
    rw [hbefore, List.append_assoc] at hquiet
    exact ⟨hundivided.quiet_behind hpackets, hquiet, trivial⟩

/-- It follows that packet within an interval. -/
theorem Repeats.lt {start : RecentPackets} {interval capacity : Nat}
    {earlier between : List Arrived} {original : Arrived}
    (h : start.Repeats earlier original between packet)
    (hbounded : start.Bounded interval capacity)
    (hclock : start.OnClock (earlier ++ original :: between ++ [packet])) :
    packet.2 < original.2 + interval := by
  have hnever : (start.after (earlier ++ [original])).Never Expires (between ++ [packet]) :=
    h.quiet.mono fun _ _ => .inl
  obtain ⟨hbetween, hlasts, -⟩ := never_append.mp hnever
  -- the interval began no later than the packet with the same hash came
  have hbegan : (start.after (earlier ++ [original])).lastReset ≤ original.2 := by
    rw [OnClock, List.append_assoc, List.cons_append, List.append_cons, List.map_append,
      ← List.cons_append, List.map_append, ← List.cons_append] at hclock
    have hordered := (List.pairwise_append.mp (List.pairwise_append.mp hclock).1).2.2
    have hbefore : ∀ time ∈ start.lastReset :: earlier.map Prod.snd, time ≤ original.2 :=
      fun time htime => hordered time htime original.2 (List.mem_singleton_self _)
    refine lastReset_after_le (hbefore _ (List.mem_cons_self ..)) fun other hother => ?_
    rcases List.mem_append.mp hother with hearlier | hself
    · exact hbefore _ (List.mem_cons_of_mem _ (List.mem_map_of_mem hearlier))
    · exact Nat.le_of_eq (congrArg Prod.snd (List.mem_singleton.mp hself))
  rw [Expires, lastReset_after hbetween,
    ((hbounded.after (earlier ++ [original])).after between).interval_eq] at hlasts
  have hlt {time began : Nat} (hlasts : ¬interval ≤ time - began) : time < began + interval := by
    omega
  exact Nat.lt_of_lt_of_le (hlt hlasts) (Nat.add_le_add_right hbegan interval)

/-- A reset comes about by time or by number: an interval is over, or the hash of a packet is not
    held and there is no room for it. -/
theorem resets_iff (interval capacity : Nat) (start : Instant) (before : List Arrived)
    (packet : Arrived) :
    ((empty interval capacity start).after before).Resets packet ↔
      (∃ time, (empty interval capacity start).Began before time ∧ interval ≤ packet.2 - time) ∨
        (packet.hash ∉ ((empty interval capacity start).after before).hashes ∧
          capacity ≤ ((empty interval capacity start).after before).hashes.length) := by
  have hbounded := bounded_after interval capacity start before
  have hbegan := began (empty interval capacity start) before
  have hunique : ∀ time, (empty interval capacity start).Began before time →
      ((empty interval capacity start).after before).lastReset = time := fun _ => Began.lastReset_eq
  generalize (empty interval capacity start).after before = recent at *
  by_cases hexpires : recent.Expires packet
  · refine iff_of_true (.inl hexpires) (.inl ⟨recent.lastReset, hbegan, ?_⟩)
    rw [Expires, hbounded.interval_eq] at hexpires
    exact hexpires
  · have hlasts : ¬∃ time, (empty interval capacity start).Began before time ∧
        interval ≤ packet.2 - time := by
      rintro ⟨time, htime, hover⟩
      rw [Expires, hunique time htime, hbounded.interval_eq] at hexpires
      exact hexpires hover
    rw [Resets, or_iff_right hexpires, or_iff_right hlasts, overflows_iff_of_not_expires hexpires,
      hbounded.capacity_eq]

/-- What comes of packets that are looked up one after the other. -/
structure Screens (start : RecentPackets) : Prop where
  /-- All that a packet does: if it is a duplicate it makes no reset. -/
  turn : ∀ before packet, (start.after before).Turn packet
    ((start.after before).isDuplicate packet) ((start.after before).next packet)
  /-- A duplicate has an original, which was new, and follows it within an interval. -/
  original : ∀ before packet, (start.after before).isDuplicate packet = true →
    ∃ earlier original between, before = earlier ++ original :: between ∧
      start.Repeats earlier original between packet ∧
      (start.OnClock (before ++ [packet]) → packet.2 < original.2 + start.interval)
  /-- Of packets that no reset divides the first with its hash is new, and no other. -/
  new_iff : ∀ old first rest, start.Undivided old first rest →
    ∀ earlier packet later, first :: rest = earlier ++ packet :: later →
      ((start.after (old ++ earlier)).isDuplicate packet = false ↔
        packet.hash ∉ earlier.map Arrived.hash)
  once : ∀ old first rest, start.Undivided old first rest → ∀ packet ∈ first :: rest,
    ((start.after old).newHashes (first :: rest)).count packet.hash = 1
  /-- Their hashes are all that is held. -/
  held : ∀ old first rest, start.Undivided old first rest → ∀ hash,
    hash ∈ (start.after (old ++ first :: rest)).hashes ↔
      hash ∈ (first :: rest).map Arrived.hash
  /-- The last of any packets are undivided. -/
  undivided : ∀ packets, packets ≠ [] →
    ∃ old first rest, packets = old ++ first :: rest ∧ start.Undivided old first rest
  /-- A reset takes an interval since the start, or since the last reset that took one, or a hash
      that is not held beside as many as there is room for. -/
  resets_iff : ∀ before packet, (start.after before).Resets packet ↔
    (∃ time, start.Began before time ∧ start.interval ≤ packet.2 - time) ∨
      (packet.hash ∉ (start.after before).hashes ∧
        start.capacity ≤ (start.after before).hashes.length)
  /-- Hashes are held once, and no more than there is room for, or one. -/
  bounded : ∀ before, (start.after before).Bounded start.interval start.capacity

/-- **Duplicates are repeated within the window.** Whatever interval and room there is, and
    whatever packets come: between two resets each hash is new once, when it comes first. A
    packet is called a duplicate only if one with its hash was new since the last reset, and on a
    clock that does not go back from the start on this was less than an interval ago. -/
theorem duplicates_within_window (interval capacity : Nat) (start : Instant) :
    (empty interval capacity start).Screens where
  turn := fun before packet => turn _ packet
  original := fun before packet h => by
    obtain ⟨earlier, original, between, rfl, hrepeats⟩ := exists_original h
    exact ⟨earlier, original, between, rfl, hrepeats, hrepeats.lt (bounded_after _ _ _ [])⟩
  new_iff := fun old first rest h earlier packet later hsplit => by
    rw [← Bool.not_eq_true, h.isDuplicate_iff hsplit]
  once := fun old first rest h packet hpacket => h.count_newHashes hpacket
  held := fun old first rest h => h.mem_hashes
  undivided := fun packets => exists_undivided _
  resets_iff := resets_iff interval capacity start
  bounded := bounded_after interval capacity start

/-- Where there is room for two, a third hash drives them out, and the first of them is new again
    although no interval is over. -/
example :
    (empty 60 2 0).newHashes [([1], 0), ([2], 5), ([1], 6), ([3], 7), ([1], 8), ([3], 9)] =
      [[1], [2], [3], [1]].map Octets.fnv1a64 := by
  decide

end RecentPackets

end PassiveDns
