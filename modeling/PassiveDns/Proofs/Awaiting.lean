/-
  PassiveDns.Proofs.Awaiting

  Those who begin the shutdown, those who subscribe to it and those who wait for it, each at
  its own pace. Every operation is taken apart into the accesses that nothing can come
  between: the flag goes up and the notification goes out, a subscriber gets hold of the flag
  and then of its inbox, one who waits looks at the flag and then into the inbox. Whatever the
  order in which these come, once a notification has gone out nobody is left waiting for one.
-/
import Mathlib.Data.List.Basic
import Mathlib.Tactic.Common
import PassiveDns.Shutdown

namespace PassiveDns.Shutdown

/-! ## The flag and the notifications -/

section Accesses

variable {state : Shutdown} {n : Nat}

/-- Who finds the flag up changes nothing. -/
theorem raiseFlag_of_raised (h : state.raised = true) : state.raiseFlag = (true, state) := by
  cases state
  cases h
  rfl

theorem trigger_of_raised (h : state.raised = true) :
    state.trigger = (.error .alreadyShuttingDown, state) := by
  rw [trigger, raiseFlag_of_raised h]

theorem trigger_of_not_raised (h : state.raised = false) :
    state.trigger = (.ok (), state.raiseFlag.2.announce) := by
  have hflag : state.raiseFlag = (false, state.raiseFlag.2) := by
    rw [← h]
    rfl
  rw [trigger, hflag]

theorem hasMail_announce (h : n < state.inboxes.length) : state.announce.hasMail n = true := by
  simp [hasMail, announce, h]

/-- A new inbox is empty, and the others are as they were. -/
@[simp] theorem hasMail_openInbox : state.openInbox.2.hasMail n = state.hasMail n := by
  unfold hasMail openInbox
  simp only [List.getD_eq_getElem?_getD, List.getElem?_append, List.getElem?_singleton]
  grind

theorem hasMail_takeMail (taker : Nat) :
    (state.takeMail taker).hasMail n = (state.hasMail n && decide (taker ≠ n)) := by
  unfold hasMail takeMail
  simp only [List.getD_eq_getElem?_getD, List.getElem?_set]
  grind

end Accesses

/-! ## One member of a list changes -/

section Unchanged

variable {α : Type} {l : List α} {i j : Nat} {a old new : α}

/-- One more of the list is no other one. -/
theorem getElem?_append_iff (hne : new ≠ a) : (l ++ [new])[i]? = some a ↔ l[i]? = some a := by
  grind

/-- Neither is one that changes. -/
theorem getElem?_set_iff (hold : l[j]? = some old) (hold_ne : old ≠ a) (hnew_ne : new ≠ a) :
    (l.set j new)[i]? = some a ↔ l[i]? = some a := by
  grind

theorem getElem?_set_same (hold : l[j]? = some old) : (l.set j new)[j]? = some new :=
  List.getElem?_set_self (List.getElem?_eq_some_iff.mp hold).1

theorem mem_set_iff (hold : l[j]? = some old) (hne : old ≠ a) :
    a ∈ l.set j new ↔ a = new ∨ a ∈ l := by
  constructor
  · exact fun h => (List.mem_or_eq_of_mem_set h).symm
  · intro h
    obtain ⟨hj, rfl⟩ := List.getElem?_eq_some_iff.mp hold
    rcases h with rfl | h
    · exact List.mem_set hj a
    · obtain ⟨k, hk⟩ := List.mem_iff_getElem?.mp h
      refine List.mem_iff_getElem?.mpr ⟨k, ?_⟩
      rwa [List.getElem?_set_ne]
      rintro rfl
      exact hne (Option.some.inj (hold.symm.trans hk))

end Unchanged

/-! ## Everybody who takes part -/

/-- A call that begins the shutdown: it has done nothing yet, it has raised the flag, or it is
    back with its outcome. -/
inductive Trigger where
  | called
  | raised
  | returned (outcome : Except Error Unit)
deriving Repr

/-- A call that subscribes: it has done nothing yet, it has got hold of the flag, or it is back
    with the subscriber's number. -/
inductive Subscription where
  | called
  | flagged
  | returned (subscriber : Nat)
deriving Repr

/-- What becomes of a subscriber's signal: nobody awaits it, somebody is about to look at the
    flag, somebody waits in the inbox, or the last to await it was told of the shutdown. -/
inductive Awaiting where
  | idle
  | looking
  | waiting
  | heard
deriving Repr

/-- What they share, and how far each has got. A signal has its owner's number, which is that
    of its inbox; only the owner awaits it. -/
structure Parties where
  shared : Shutdown
  triggers : List Trigger
  subscriptions : List Subscription
  signals : List Awaiting
deriving Repr

namespace Parties

/-- Nobody has called yet. -/
def start (drainTimeout : Nat) : Parties := ⟨.ofTimeout drainTimeout, [], [], []⟩

/-- One access of one of them. Calls may be made at any time, in any number; whoever awaits a
    signal may give up and await it again. -/
inductive Step : Parties → Parties → Prop
  | trigger (parties : Parties) :
      Step parties { parties with triggers := parties.triggers ++ [.called] }
  | raise (parties : Parties) (i : Nat) (called : parties.triggers[i]? = some .called) :
      Step parties { parties with
        shared := parties.shared.raiseFlag.2
        triggers := parties.triggers.set i
          (if parties.shared.raiseFlag.1 then .returned (.error .alreadyShuttingDown)
            else .raised) }
  | announce (parties : Parties) (i : Nat) (raised : parties.triggers[i]? = some .raised) :
      Step parties { parties with
        shared := parties.shared.announce
        triggers := parties.triggers.set i (.returned (.ok ())) }
  | subscribe (parties : Parties) :
      Step parties { parties with subscriptions := parties.subscriptions ++ [.called] }
  | holdFlag (parties : Parties) (i : Nat) (called : parties.subscriptions[i]? = some .called) :
      Step parties { parties with subscriptions := parties.subscriptions.set i .flagged }
  | openInbox (parties : Parties) (i : Nat)
      (flagged : parties.subscriptions[i]? = some .flagged) :
      Step parties { parties with
        shared := parties.shared.openInbox.2
        subscriptions := parties.subscriptions.set i (.returned parties.shared.openInbox.1)
        signals := parties.signals ++ [.idle] }
  | await (parties : Parties) (n : Nat)
      (free : parties.signals[n]? = some .idle ∨ parties.signals[n]? = some .heard) :
      Step parties { parties with signals := parties.signals.set n .looking }
  | look (parties : Parties) (n : Nat) (looking : parties.signals[n]? = some .looking) :
      Step parties { parties with
        signals := parties.signals.set n (if parties.shared.raised then .heard else .waiting) }
  | take (parties : Parties) (n : Nat) (waiting : parties.signals[n]? = some .waiting)
      (mail : parties.shared.hasMail n = true) :
      Step parties { parties with
        shared := parties.shared.takeMail n
        signals := parties.signals.set n .heard }
  | giveUp (parties : Parties) (n : Nat)
      (awaited : parties.signals[n]? = some .looking ∨ parties.signals[n]? = some .waiting) :
      Step parties { parties with signals := parties.signals.set n .idle }
  | enter (parties : Parties) : Step parties { parties with shared := parties.shared.enter }
  | leave (parties : Parties) : Step parties { parties with shared := parties.shared.leave }

/-- Any number of steps, whoever takes them. -/
inductive Reaches : Parties → Parties → Prop
  | refl (parties : Parties) : Reaches parties parties
  | next {parties later after : Parties} (reaches : Reaches parties later)
      (step : Step later after) : Reaches parties after

/-- The whole operation is the two accesses of one call that nobody comes between. -/
theorem reaches_trigger {parties : Parties} {i : Nat}
    (called : parties.triggers[i]? = some .called) :
    Reaches parties { parties with
      shared := parties.shared.trigger.2
      triggers := parties.triggers.set i (.returned parties.shared.trigger.1) } := by
  have hraise := Step.raise parties i called
  cases hraised : parties.shared.raised with
  | true =>
    rw [raiseFlag_of_raised hraised, if_pos rfl] at hraise
    rw [trigger_of_raised hraised]
    exact .next (.refl _) hraise
  | false =>
    rw [show parties.shared.raiseFlag.1 = false from hraised, if_neg Bool.false_ne_true] at hraise
    have hannounce := Step.announce { parties with
        shared := parties.shared.raiseFlag.2
        triggers := parties.triggers.set i .raised } i (getElem?_set_same called)
    rw [List.set_set] at hannounce
    rw [trigger_of_not_raised hraised]
    exact .next (.next (.refl _) hraise) hannounce

/-! ## What no step breaks -/

/-- Some call has left its notifications. -/
def Announced (parties : Parties) : Prop := .returned (.ok ()) ∈ parties.triggers

/-- A call found the flag down and raised it. -/
def Leads (parties : Parties) (i : Nat) : Prop :=
  parties.triggers[i]? = some .raised ∨ parties.triggers[i]? = some (.returned (.ok ()))

/-- What holds at any time. One call at most leads, and the flag is up from then on; no inbox
    has a notification before that call has left one everywhere, and then all those have one
    for whom somebody waits. -/
structure Sound (parties : Parties) : Prop where
  places : parties.signals.length = parties.shared.inboxes.length
  numbered (n : Nat) : .returned n ∈ parties.subscriptions ↔ n < parties.signals.length
  lone {i j : Nat} : parties.Leads i → parties.Leads j → i = j
  up : parties.shared.raised = true ↔ ∃ i, parties.Leads i
  refused {i : Nat} {error : Error} : parties.triggers[i]? = some (.returned (.error error)) →
    parties.shared.raised = true ∧ error = .alreadyShuttingDown
  mail {n : Nat} : parties.shared.hasMail n = true → parties.Announced
  waiting {n : Nat} : parties.Announced → parties.signals[n]? = some .waiting →
    parties.shared.hasMail n = true
  heard {n : Nat} : parties.signals[n]? = some .heard → parties.shared.raised = true

theorem sound_start (drainTimeout : Nat) : (start drainTimeout).Sound where
  places := rfl
  numbered n := by simp [start]
  lone h := by simp [start, Leads] at h
  up := by simp [start, ofTimeout, Leads]
  refused h := by simp [start] at h
  mail h := by simp [start, ofTimeout, hasMail] at h
  waiting _ h := by simp [start] at h
  heard h := by simp [start] at h

namespace Sound

variable {parties : Parties}

theorem raised_of_announced (h : parties.Sound) (hannounced : parties.Announced) :
    parties.shared.raised = true := by
  obtain ⟨i, hi⟩ := List.mem_iff_getElem?.mp hannounced
  exact h.up.mpr ⟨i, .inr hi⟩

/-- A step that touches neither the flag nor an inbox, nor a call that leads. -/
theorem kept (h : parties.Sound) {after : Parties}
    (hraised : after.shared.raised = parties.shared.raised)
    (hinboxes : after.shared.inboxes = parties.shared.inboxes)
    (htriggers : ∀ {i : Nat} {t : Trigger}, t = .raised ∨ t = .returned (.ok ()) →
      (after.triggers[i]? = some t ↔ parties.triggers[i]? = some t))
    (hrefused : ∀ {i : Nat} {error : Error},
      after.triggers[i]? = some (.returned (.error error)) →
        parties.shared.raised = true ∧ error = .alreadyShuttingDown)
    (hnumbered : ∀ n, .returned n ∈ after.subscriptions ↔ .returned n ∈ parties.subscriptions)
    (hlength : after.signals.length = parties.signals.length)
    (hwaiting : ∀ {n : Nat}, after.signals[n]? = some .waiting →
      parties.signals[n]? = some .waiting ∨ parties.shared.raised = false)
    (hheard : ∀ {n : Nat}, after.signals[n]? = some .heard →
      parties.signals[n]? = some .heard ∨ parties.shared.raised = true) : after.Sound := by
  have hleads (i : Nat) : after.Leads i ↔ parties.Leads i := by
    unfold Leads
    rw [htriggers (.inl rfl), htriggers (.inr rfl)]
  have hannounced : after.Announced ↔ parties.Announced := by
    unfold Announced
    simp only [List.mem_iff_getElem?]
    exact exists_congr fun i => htriggers (.inr rfl)
  have hmail (n : Nat) : after.shared.hasMail n = parties.shared.hasMail n := by
    unfold hasMail
    rw [hinboxes]
  constructor
  case places => rw [hlength, hinboxes, h.places]
  case numbered => exact fun n => by rw [hnumbered, hlength, h.numbered]
  case lone => exact fun hi hj => h.lone ((hleads _).mp hi) ((hleads _).mp hj)
  case up => rw [hraised, h.up]; exact exists_congr fun i => (hleads i).symm
  case refused => exact fun hi => hraised ▸ hrefused hi
  case mail => exact fun hn => hannounced.mpr (h.mail (hmail _ ▸ hn))
  case waiting =>
    intro n ha hn
    -- who began to wait found the flag down, so nothing was announced
    have hraised := h.raised_of_announced (hannounced.mp ha)
    rcases hwaiting hn with hn | hdown
    · rw [hmail, h.waiting (hannounced.mp ha) hn]
    · rw [hraised] at hdown
      cases hdown
  case heard =>
    intro n hn
    rw [hraised]
    exact (hheard hn).elim h.heard id

/-- A step in which only a signal takes part, which neither begins to wait nor is told. -/
theorem signal (h : parties.Sound) {n : Nat} {old new : Awaiting}
    (hold : parties.signals[n]? = some old)
    (hwaiting : new = .waiting → parties.shared.raised = false)
    (hheard : new = .heard → parties.shared.raised = true) :
    { parties with signals := parties.signals.set n new }.Sound := by
  have hset {k : Nat} {status : Awaiting} (hk : (parties.signals.set n new)[k]? = some status) :
      parties.signals[k]? = some status ∨ new = status := by
    grind
  refine h.kept rfl rfl (fun _ => Iff.rfl) h.refused (fun _ => Iff.rfl) (List.length_set ..) ?_ ?_
  · exact fun hk => (hset hk).imp_right hwaiting
  · exact fun hk => (hset hk).imp_right hheard

/-- The flag was up: the call that finds it so is refused. -/
theorem refuse (h : parties.Sound) {i : Nat} (called : parties.triggers[i]? = some .called)
    (hraised : parties.shared.raised = true) :
    { parties with
      triggers := parties.triggers.set i (.returned (.error .alreadyShuttingDown)) }.Sound := by
  refine h.kept rfl rfl ?_ ?_ (fun _ => Iff.rfl) rfl .inl .inl
  · rintro j t (rfl | rfl) <;> exact getElem?_set_iff called (by simp) (by simp)
  · intro j error hj
    refine ⟨hraised, ?_⟩
    by_cases herror : error = .alreadyShuttingDown
    · exact herror
    · refine (h.refused ((getElem?_set_iff called (by simp) ?_).mp hj)).2
      simpa using Ne.symm herror

/-- The flag was down: nobody led, and this call does from now on. -/
theorem raise (h : parties.Sound) {i : Nat} (called : parties.triggers[i]? = some .called)
    (hdown : parties.shared.raised = false) :
    { parties with
      shared := parties.shared.raiseFlag.2
      triggers := parties.triggers.set i .raised }.Sound := by
  have hnobody (j : Nat) : ¬ parties.Leads j := by
    intro hj
    rw [h.up.mpr ⟨j, hj⟩] at hdown
    cases hdown
  have hothers {j : Nat} {outcome : Except Error Unit} :
      (parties.triggers.set i .raised)[j]? = some (.returned outcome) ↔
        parties.triggers[j]? = some (.returned outcome) :=
    getElem?_set_iff called (by simp) (by simp)
  have hlead {j : Nat} (hj : Leads { parties with
      shared := parties.shared.raiseFlag.2
      triggers := parties.triggers.set i .raised } j) : i = j := by
    by_contra hne
    refine hnobody j (hj.imp (fun hj => ?_) hothers.mp)
    rwa [List.getElem?_set_ne hne] at hj
  have hunannounced : ¬ Announced { parties with
      shared := parties.shared.raiseFlag.2
      triggers := parties.triggers.set i .raised } := by
    intro ha
    obtain ⟨j, hj⟩ := List.mem_iff_getElem?.mp ha
    exact hnobody j (.inr (hothers.mp hj))
  constructor
  case places => exact h.places
  case numbered => exact h.numbered
  case lone => exact fun hi hj => (hlead hi).symm.trans (hlead hj)
  case up => exact ⟨fun _ => ⟨i, .inl (getElem?_set_same called)⟩, fun _ => rfl⟩
  case refused => exact fun hj => ⟨rfl, (h.refused (hothers.mp hj)).2⟩
  case mail =>
    -- a notification would be from somebody who led
    intro n hn
    obtain ⟨j, hj⟩ := List.mem_iff_getElem?.mp (h.mail hn)
    exact absurd (.inr hj) (hnobody j)
  -- those who wait already are not told yet
  case waiting => exact fun ha => absurd ha hunannounced
  case heard => exact fun _ => rfl

/-- The call that leads leaves its notifications, one for everybody there is. -/
theorem announce (h : parties.Sound) {i : Nat} (raised : parties.triggers[i]? = some .raised) :
    { parties with
      shared := parties.shared.announce
      triggers := parties.triggers.set i (.returned (.ok ())) }.Sound := by
  have hset : (parties.triggers.set i (.returned (.ok ())))[i]? = some (.returned (.ok ())) :=
    getElem?_set_same raised
  have hleads (j : Nat) : Leads { parties with
      shared := parties.shared.announce
      triggers := parties.triggers.set i (.returned (.ok ())) } j ↔ parties.Leads j := by
    by_cases hj : i = j
    · subst hj
      exact iff_of_true (.inr hset) (.inl raised)
    · unfold Leads
      dsimp only
      rw [List.getElem?_set_ne hj]
  constructor
  case places => simp [h.places, Shutdown.announce]
  case numbered => exact h.numbered
  case lone => exact fun hi hj => h.lone ((hleads _).mp hi) ((hleads _).mp hj)
  case up => exact h.up.trans (exists_congr fun j => (hleads j).symm)
  case refused =>
    exact fun hj => h.refused ((getElem?_set_iff raised (by simp) (by simp)).mp hj)
  case mail => exact fun _ => List.mem_iff_getElem?.mpr ⟨i, hset⟩
  case waiting =>
    -- whoever waits has an inbox already
    intro n _ hn
    exact hasMail_announce (h.places ▸ (List.getElem?_eq_some_iff.mp hn).1)
  case heard => exact h.heard

/-- One more subscriber, whose signal nobody awaits yet. -/
theorem openInbox (h : parties.Sound) {i : Nat}
    (flagged : parties.subscriptions[i]? = some .flagged) :
    { parties with
      shared := parties.shared.openInbox.2
      subscriptions := parties.subscriptions.set i (.returned parties.shared.openInbox.1)
      signals := parties.signals ++ [Awaiting.idle] }.Sound := by
  constructor
  case places => simp [h.places, Shutdown.openInbox]
  case numbered =>
    intro n
    have hfirst : parties.shared.openInbox.1 = parties.signals.length := h.places.symm
    rw [mem_set_iff flagged (by simp), h.numbered, hfirst, List.length_append,
      List.length_singleton, Subscription.returned.injEq]
    omega
  case lone => exact h.lone
  case up => exact h.up
  case refused => exact h.refused
  case mail => exact fun hn => h.mail (hasMail_openInbox ▸ hn)
  case waiting =>
    intro n ha hn
    rw [hasMail_openInbox]
    exact h.waiting ha ((getElem?_append_iff (by simp)).mp hn)
  case heard => exact fun hn => h.heard ((getElem?_append_iff (by simp)).mp hn)

/-- One who waits finds its notification. -/
theorem take (h : parties.Sound) {n : Nat} (waiting : parties.signals[n]? = some .waiting)
    (mail : parties.shared.hasMail n = true) :
    { parties with
      shared := parties.shared.takeMail n
      signals := parties.signals.set n .heard }.Sound := by
  constructor
  case places => simp [h.places, takeMail]
  case numbered => simpa using h.numbered
  case lone => exact h.lone
  case up => exact h.up
  case refused => exact h.refused
  case mail =>
    intro k hk
    rw [hasMail_takeMail, Bool.and_eq_true] at hk
    exact h.mail hk.1
  case waiting =>
    intro k ha hk
    -- who took its notification does not wait any more
    have hne : n ≠ k := by
      rintro rfl
      rw [getElem?_set_same waiting] at hk
      cases hk
    rw [List.getElem?_set_ne hne] at hk
    rw [hasMail_takeMail, h.waiting ha hk, decide_eq_true hne]
    rfl
  case heard => exact fun _ => h.raised_of_announced (h.mail mail)

/-- No step breaks it. -/
theorem step (h : parties.Sound) {after : Parties} (hstep : Step parties after) : after.Sound := by
  cases hstep with
  | trigger =>
    refine h.kept rfl rfl ?_ ?_ (fun _ => Iff.rfl) rfl .inl .inl
    · rintro i t (rfl | rfl) <;> exact getElem?_append_iff (by simp)
    · exact fun hi => h.refused ((getElem?_append_iff (by simp)).mp hi)
  | raise i called =>
    cases hraised : parties.shared.raised with
    | true =>
      rw [raiseFlag_of_raised hraised]
      exact h.refuse called hraised
    | false =>
      rw [show parties.shared.raiseFlag.1 = false from hraised, if_neg Bool.false_ne_true]
      exact h.raise called hraised
  | announce i raised => exact h.announce raised
  | subscribe =>
    refine h.kept rfl rfl (fun _ => Iff.rfl) h.refused (fun n => ?_) rfl .inl .inl
    simp
  | holdFlag i called =>
    refine h.kept rfl rfl (fun _ => Iff.rfl) h.refused (fun n => ?_) rfl .inl .inl
    simp [mem_set_iff called]
  | openInbox i flagged => exact h.openInbox flagged
  | await n free =>
    rcases free with free | free <;> exact h.signal free (by simp) (by simp)
  | look n looking =>
    cases hraised : parties.shared.raised with
    | true => exact h.signal looking (by simp) fun _ => hraised
    | false => exact h.signal looking (fun _ => hraised) (by simp)
  | take n waiting mail => exact h.take waiting mail
  | giveUp n awaited =>
    rcases awaited with awaited | awaited <;> exact h.signal awaited (by simp) (by simp)
  | enter => exact h.kept rfl rfl (fun _ => Iff.rfl) h.refused (fun _ => Iff.rfl) rfl .inl .inl
  | leave => exact h.kept rfl rfl (fun _ => Iff.rfl) h.refused (fun _ => Iff.rfl) rfl .inl .inl

/-- So it holds however long they go on. -/
theorem run (h : parties.Sound) {later : Parties} (hreaches : Reaches parties later) :
    later.Sound := by
  induction hreaches with
  | refl => exact h
  | next _ hstep ih => exact ih.step hstep

end Sound

/-! ## What lasts -/

section Lasting

variable {parties later : Parties}

/-- Nobody lowers the flag. -/
theorem raised_of_reaches (hreaches : Reaches parties later)
    (h : parties.shared.raised = true) : later.shared.raised = true := by
  induction hreaches with
  | refl => exact h
  | next _ hstep ih =>
    cases hstep with
    | raise => rfl
    | _ => exact ih

/-- An outcome is final. -/
theorem returned_of_reaches (hreaches : Reaches parties later) {i : Nat}
    {outcome : Except Error Unit} (h : parties.triggers[i]? = some (.returned outcome)) :
    later.triggers[i]? = some (.returned outcome) := by
  induction hreaches with
  | refl => exact h
  | @next mid _ _ hstep ih =>
    -- a call that acts is not back yet, so it is another one
    have hother {j : Nat} {status : Trigger} (hj : mid.triggers[j]? = some status)
        (hstatus : status ≠ .returned outcome) : j ≠ i := by
      rintro rfl
      exact hstatus (Option.some.inj (hj.symm.trans ih))
    cases hstep with
    | trigger => exact (getElem?_append_iff (by simp)).mpr ih
    | raise j called => exact (List.getElem?_set_ne (hother called (by simp))).trans ih
    | announce j raised => exact (List.getElem?_set_ne (hother raised (by simp))).trans ih
    | _ => exact ih

theorem announced_of_reaches (hreaches : Reaches parties later) (h : parties.Announced) :
    later.Announced := by
  obtain ⟨i, hi⟩ := List.mem_iff_getElem?.mp h
  exact List.mem_iff_getElem?.mpr ⟨i, returned_of_reaches hreaches hi⟩

end Lasting

/-! ## Nobody is left waiting -/

section Waiting

variable {parties : Parties} {n : Nat}

/-- The owner waits for a notification and has none. -/
def Blocked (parties : Parties) (n : Nat) : Prop :=
  parties.signals[n]? = some .waiting ∧ parties.shared.hasMail n = false

/-- The owner awaits its signal: it is about to look at the flag, or it waits. -/
def Awaited (parties : Parties) (n : Nat) : Prop :=
  parties.signals[n]? = some .looking ∨ parties.signals[n]? = some .waiting

/-- The owner's next access brings it back. -/
def ComesBack (parties : Parties) (n : Nat) : Prop :=
  ∃ after, Step parties after ∧ after.signals = parties.signals.set n .heard

theorem comesBack_of_looking (looking : parties.signals[n]? = some .looking)
    (hraised : parties.shared.raised = true) : parties.ComesBack n :=
  ⟨_, .look parties n looking, by rw [if_pos hraised]⟩

/-- Who is ready need not wait for anybody: it comes back by accesses of its own alone. -/
theorem comesBack_of_isReady
    (free : parties.signals[n]? = some .idle ∨ parties.signals[n]? = some .heard)
    (hready : parties.shared.isReady n = true) :
    ∃ looking, Step parties looking ∧ looking.Awaited n ∧
      (looking.ComesBack n ∨ ∃ waiting, Step looking waiting ∧ waiting.ComesBack n) := by
  have hplace : n < parties.signals.length :=
    free.elim (fun idle => (List.getElem?_eq_some_iff.mp idle).1) fun heard =>
      (List.getElem?_eq_some_iff.mp heard).1
  have hlooking := List.getElem?_set_self (a := Awaiting.looking) hplace
  refine ⟨_, .await parties n free, .inl hlooking, ?_⟩
  -- the flag ends it, and if it is down there is a notification
  cases hraised : parties.shared.raised with
  | true => exact .inl (comesBack_of_looking hlooking hraised)
  | false =>
    rw [isReady, hraised, Bool.false_or] at hready
    have hlook := Step.look { parties with signals := parties.signals.set n .looking } n hlooking
    rw [hraised, if_neg Bool.false_ne_true, List.set_set] at hlook
    exact .inr ⟨_, hlook, _, .take _ n (List.getElem?_set_self hplace) hready, rfl⟩

namespace Sound

/-- After the notifications have gone out, whoever awaits its signal comes back. -/
theorem comesBack (h : parties.Sound) (hannounced : parties.Announced)
    (hawaited : parties.Awaited n) : parties.ComesBack n := by
  rcases hawaited with looking | waiting
  · exact comesBack_of_looking looking (h.raised_of_announced hannounced)
  · exact ⟨_, .take parties n waiting (h.waiting hannounced waiting), rfl⟩

theorem not_blocked (h : parties.Sound) (hannounced : parties.Announced) : ¬ parties.Blocked n := by
  rintro ⟨waiting, hmail⟩
  rw [h.waiting hannounced waiting] at hmail
  cases hmail

/-- When every call is back, one of them was the first, if there was any. -/
theorem announced_of_settled (h : parties.Sound) (hcalls : parties.triggers ≠ [])
    (hsettled : ∀ call ∈ parties.triggers, ∃ outcome, call = .returned outcome) :
    parties.Announced := by
  obtain ⟨call, hcall⟩ := List.exists_mem_of_ne_nil _ hcalls
  obtain ⟨outcome, rfl⟩ := hsettled call hcall
  cases outcome with
  | ok => exact hcall
  | error error =>
    -- it was refused, so another one leads
    obtain ⟨i, hi⟩ := List.mem_iff_getElem?.mp hcall
    obtain ⟨j, raised | returned⟩ := h.up.mp (h.refused hi).1
    · obtain ⟨_, hback⟩ := hsettled _ (List.mem_iff_getElem?.mpr ⟨j, raised⟩)
      cases hback
    · exact List.mem_iff_getElem?.mpr ⟨j, returned⟩

theorem unique_of_announced (h : parties.Sound) (hannounced : parties.Announced) :
    ∃! i : Nat, parties.triggers[i]? = some (.returned (.ok ())) := by
  obtain ⟨i, hi⟩ := List.mem_iff_getElem?.mp hannounced
  exact ⟨i, hi, fun j hj => h.lone (.inr hj) (.inr hi)⟩

end Sound

end Waiting

/-- Whatever the order in which they act: once some call has left its notifications, nobody is
    blocked, then or at any later time. Whoever subscribed, whenever and however often it
    awaits its signal, finds the flag up or its notification there, and comes back by its next
    access; and nobody comes back before the flag is up. The flag stays up, and outcomes stay
    as they are: at most one call succeeds, the others are refused, and one has succeeded when
    all calls made are back. -/
theorem nobody_left_waiting {drainTimeout : Nat} {parties later : Parties}
    (hreaches : Reaches (start drainTimeout) parties) (hlater : Reaches parties later) :
    (parties.Announced → later.shared.raised = true ∧
      ∀ n : Nat, .returned n ∈ later.subscriptions → n < later.signals.length ∧ ¬ later.Blocked n ∧
        (later.Awaited n → later.ComesBack n)) ∧
    (∀ n : Nat, parties.signals[n]? = some .heard → parties.shared.raised = true) ∧
    (parties.shared.raised = true → later.shared.raised = true) ∧
    (∀ (i : Nat) (outcome : Except Error Unit),
      parties.triggers[i]? = some (.returned outcome) →
        later.triggers[i]? = some (.returned outcome)) ∧
    (∀ i j : Nat, parties.triggers[i]? = some (.returned (.ok ())) →
      parties.triggers[j]? = some (.returned (.ok ())) → i = j) ∧
    (∀ (i : Nat) (error : Error), parties.triggers[i]? = some (.returned (.error error)) →
      error = .alreadyShuttingDown) ∧
    (parties.triggers ≠ [] →
      (∀ call ∈ parties.triggers, ∃ outcome, call = .returned outcome) →
        ∃! i : Nat, parties.triggers[i]? = some (.returned (.ok ()))) := by
  have hsound := (sound_start drainTimeout).run hreaches
  refine ⟨fun hannounced => ?_, fun _ => hsound.heard, raised_of_reaches hlater,
    fun _ _ => returned_of_reaches hlater, fun _ _ hi hj => hsound.lone (.inr hi) (.inr hj),
    fun _ _ hi => (hsound.refused hi).2,
    fun hcalls hsettled => hsound.unique_of_announced (hsound.announced_of_settled hcalls hsettled)⟩
  have hstill := announced_of_reaches hlater hannounced
  have hsound := hsound.run hlater
  exact ⟨hsound.raised_of_announced hstill, fun n hn => ⟨(hsound.numbered n).mp hn,
    hsound.not_blocked hstill, hsound.comesBack hstill⟩⟩

/-- One waits already, one subscribes while two calls race to begin: the second is refused
    before the first has told anybody. -/
def raced : Parties where
  shared := ⟨5000, true, [true], 0⟩
  triggers := [.returned (.ok ()), .returned (.error .alreadyShuttingDown)]
  subscriptions := [.returned 0, .flagged]
  signals := [.waiting]

theorem reaches_raced : Reaches (start 5000) raced :=
  (Reaches.refl (start 5000)).next (.subscribe _) |>.next (.holdFlag _ 0 rfl)
    |>.next (.openInbox _ 0 rfl) |>.next (.await _ 0 (.inl rfl)) |>.next (.look _ 0 rfl)
    |>.next (.trigger _) |>.next (.trigger _) |>.next (.raise _ 0 rfl)
    |>.next (.subscribe _) |>.next (.holdFlag _ 1 rfl)
    |>.next (.raise _ 1 rfl) |>.next (.announce _ 0 rfl)

/-- The second has its inbox now, too late for the notification, and the first took its own. -/
def settled : Parties where
  shared := ⟨5000, true, [false, false], 0⟩
  triggers := [.returned (.ok ()), .returned (.error .alreadyShuttingDown)]
  subscriptions := [.returned 0, .returned 1]
  signals := [.heard, .looking]

theorem raced_reaches_settled : Reaches raced settled :=
  (Reaches.refl raced).next (.openInbox _ 1 rfl) |>.next (.take _ 0 rfl rfl)
    |>.next (.await _ 1 (.inl rfl))

theorem raced_nobody_left_waiting :
    Reaches (start 5000) raced ∧ Reaches raced settled ∧ raced.Awaited 0 ∧ ¬ raced.Blocked 0 ∧
      settled.Awaited 1 ∧ settled.ComesBack 1 ∧
      ∃! i : Nat, raced.triggers[i]? = some (.returned (.ok ())) := by
  have hannounced : raced.Announced := .head _
  obtain ⟨hraced, -, -, -, -, -, hunique⟩ := nobody_left_waiting reaches_raced (.refl raced)
  obtain ⟨hsettled, -⟩ := nobody_left_waiting reaches_raced raced_reaches_settled
  refine ⟨reaches_raced, raced_reaches_settled, .inr rfl, ?_, .inl rfl, ?_, hunique ?_ ?_⟩
  · exact ((hraced hannounced).2 0 (.head _)).2.1
  · exact ((hsettled hannounced).2 1 (.tail _ (.head _))).2.2 (.inl rfl)
  · exact List.cons_ne_nil _ _
  · rintro call (_ | ⟨_, _ | ⟨_, ⟨⟩⟩⟩) <;> exact ⟨_, rfl⟩

end Parties

end PassiveDns.Shutdown
