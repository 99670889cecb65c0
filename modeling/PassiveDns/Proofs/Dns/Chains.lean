/-
  PassiveDns.Proofs.Dns.Chains

  How long chains of pointers get. A name ends in a pointer to another one, which may end
  in a pointer as well, so how a name is spelled depends on every name written before it.
  It takes at most as many pointers as the name has labels, and one less if the name is
  written behind all that it ends in (`ascending_spelled`). A reader follows only so many:
  that alone decides whether a name is read as it was written (`name_read_iff_few_jumps`).
-/
import PassiveDns.Proofs.Dns.Calls

namespace PassiveDns.Dns

open Name
open Writer (Call)

namespace Name

/-- Labels that are written, and are short enough together with the dots behind them. How
    many there are does not matter. -/
structure Sized (name : String) : Prop where
  short : Short (labels name)
  total : (Text.Utf8.ofString (normalised name)).length ≤ maxLength

instance : DecidablePred Sized := fun name =>
  decidable_of_iff (Short (labels name) ∧
      (Text.Utf8.ofString (normalised name)).length ≤ maxLength)
    ⟨fun h => ⟨h.1, h.2⟩, fun h => ⟨h.short, h.total⟩⟩

theorem length_le_span (labels : List String) : labels.length ≤ span (octetsOf labels) := by
  induction labels with
  | nil => exact Nat.zero_le _
  | cons label rest ih =>
    rw [List.length_cons, octetsOf_cons, span_cons]
    omega

/-- A name that is spelled through too many pointers is given up, but where reading goes on is
    known by then. -/
theorem walk_of_spells_far {message : Array UInt8} {i jumps stop : Nat} {labels : List Octets}
    (h : Spells message i labels jumps stop) {done : Nat} (used : Nat) (hdone : done ≤ maxJumps)
    (hjumps : maxJumps < done + jumps) (hused : used + span labels ≤ maxLength) :
    (walk message i done used).labels = .error .tooManyJumps ∧
      (done < maxJumps → (walk message i done used).resume = some stop) := by
  induction h generalizing done used with
  | root => omega
  | @label i jumps stop label labels hne hmax hholds hrest ih =>
    rw [span_cons] at hused
    obtain ⟨hlabels, hresume⟩ := ih (used + (label.length + 1)) hdone hjumps (by omega)
    rw [walk_label hne hmax hholds (by omega)]
    refine ⟨?_, hresume⟩
    show (Walk.labels _).map _ = _
    rw [hlabels]
    rfl
  | @pointer i jumps stop hi lo labels hhi hlo hpointer hrest ih =>
    by_cases hlast : maxJumps ≤ done
    · rw [walk, hhi]
      dsimp only
      rw [if_pos hpointer, if_pos hlast]
      exact ⟨rfl, fun hless => absurd hless (Nat.not_lt.mpr hlast)⟩
    · rw [walk_pointer hhi hlo hpointer (Nat.lt_of_not_le hlast)]
      exact ⟨(ih used (by omega) (by omega) hused).1, fun _ => rfl⟩

end Name

theorem Reader.name_far {source : Source} {n jumps stop : Nat} {labels : List Octets}
    (h : Name.Spells source.octets n labels jumps stop) (hjumps : maxJumps < jumps)
    (hspan : span labels ≤ maxLength) :
    Reader.name source n = .error .tooManyJumps stop := by
  obtain ⟨hlabels, hresume⟩ := walk_of_spells_far h 0 (Nat.zero_le _) (by omega) (by omega)
  rw [name_walk, hlabels, hresume (by decide)]
  rfl

/-- Through few enough pointers a name is read, and through more it is not. -/
theorem Reader.name_of_sized {source : Source} {name : String} {n jumps stop : Nat}
    (h : Sized name) (hspells : Spells source.octets n (octetsOf (labels name)) jumps stop) :
    Reader.name source n =
      if jumps ≤ maxJumps then .ok (normalised name) stop else .error .tooManyJumps stop := by
  have hspan := span_le_of_total h.total
  by_cases hjumps : jumps ≤ maxJumps
  · rw [if_pos hjumps, Reader.name_ok hspells hjumps hspan, normalised]
  · rw [if_neg hjumps, Reader.name_far hspells (Nat.lt_of_not_le hjumps) hspan]

namespace Wire

/-! ## Whatever else is written -/

/-- **When a name is read as it was written.** Between any calls on a fresh draft a name that
    is short enough is written, and is spelled where it was written through at most as many
    pointers as it has labels. If they are no more than a reader follows, then whatever is
    written later the name is read in its normalised form; otherwise it is given up. Either
    way the cursor ends where the write left it. -/
theorem name_read_iff_few_jumps (before later : List Call) (name : String)
    (h : Sized name) :
    ∃ jumps, jumps ≤ (labels name).length ∧
      Writer.name name (empty.afterAll before) =
        .ok () (empty.afterAll (before ++ [Call.name name])) ∧
      Spells (empty.afterAll (before ++ [Call.name name])).octets (empty.afterAll before).position
        (octetsOf (labels name)) jumps (empty.afterAll (before ++ [Call.name name])).position ∧
      ∀ access, Reader.name ⟨(empty.afterAll (before ++ Call.name name :: later)).octets, access⟩
          (empty.afterAll before).position =
        if jumps ≤ maxJumps then
          .ok (normalised name) (empty.afterAll (before ++ [Call.name name])).position
        else .error .tooManyJumps (empty.afterAll (before ++ [Call.name name])).position := by
  have hrecorded := recorded_afterAll before
  obtain ⟨octets, suffixes, hbefore⟩ := hrecorded.draft
  rw [hbefore] at hrecorded
  have hsound : Sound suffixes octets.toArray := hrecorded.sound
  obtain ⟨more, after, jumps, hwrite, hjumps, hspells, -⟩ := hsound.name h.short
  have hname : empty.afterAll (before ++ [Call.name name]) = .draft (octets ++ more) after := by
    rw [afterAll_append_singleton, hbefore]
    exact congrArg left hwrite
  -- What is written later stands behind the name and leaves it spelled.
  obtain ⟨others, last, hlast⟩ := draft_afterAll (octets ++ more) after later
  rw [← hname, ← afterAll_append, List.append_assoc, List.singleton_append] at hlast
  rw [hname, hlast, hbefore]
  refine ⟨jumps, hjumps, hwrite, hspells, fun access => Reader.name_of_sized h ?_⟩
  show Spells (octets ++ more ++ others).toArray _ _ _ _
  rw [← List.append_toArray (octets ++ more) others]
  exact hspells.append others.toArray

/-- A name with a pointer to one written before, read when more was written behind it. -/
theorem name_read_pointed :
    Sized "a.b" ∧
      Reader.name ⟨(empty.afterAll [.name "b", .octet 7, .name "a.b", .word16 8]).octets, .view⟩ 4 =
        .ok "a.b." 8 := by
  have hsized : Sized "a.b" := by decide
  refine ⟨hsized, ?_⟩
  obtain ⟨jumps, hjumps, -, -, hread⟩ :=
    name_read_iff_few_jumps [.name "b", .octet 7] [.word16 8] "a.b" hsized
  have hlabels : (labels "a.b").length = 2 := by decide +kernel
  have hfew : jumps ≤ maxJumps := by
    rw [maxJumps]
    omega
  have hplace : (empty.afterAll [.name "b", .octet 7]).position = 4 := by decide +kernel
  have hstop : (empty.afterAll [.name "b", .octet 7, .name "a.b"]).position = 8 := by decide +kernel
  have htext : normalised "a.b" = "a.b." := by decide +kernel
  have hview := hread .view
  rw [if_pos hfew, hplace, htext] at hview
  rw [← hstop]
  exact hview

end Wire

/-! ## The longest chains -/

namespace Name

/-- Labels of a name that is short enough. -/
structure Writable (given : List String) : Prop where
  plain : Plain given
  short : Short given
  total : span (octetsOf given) ≤ maxLength

theorem Writable.of_suffix {given suffix : List String} (h : Writable given)
    (hsuffix : suffix <:+ given) : Writable suffix where
  plain := h.plain.of_suffix hsuffix
  short := h.short.of_suffix hsuffix
  total := by
    obtain ⟨front, rfl⟩ := hsuffix
    have htotal := h.total
    rw [octetsOf, List.map_append, span_append] at htotal
    exact Nat.le_trans (Nat.le_add_left _ _) htotal

theorem Writable.tail {label : String} {rest : List String} (h : Writable (label :: rest)) :
    Writable rest :=
  h.of_suffix (List.suffix_cons label rest)

theorem Writable.sized {given : List String} (h : Writable given) (hne : given ≠ []) :
    Sized (dotted given) where
  short := by
    rw [labels_dotted h.plain]
    exact h.short
  total := by
    rw [normalised, labels_dotted h.plain, if_neg hne, length_dotted]
    exact h.total

end Name

namespace Wire

/-- The calls that write what a name ends in, the shortest first, and then the name. -/
def ascending : List String → List Call
  | [] => []
  | label :: rest => ascending rest ++ [.name (dotted (label :: rest))]

theorem mem_ascending {given : List String} {call : Call} (h : call ∈ ascending given) :
    ∃ suffix, suffix ≠ [] ∧ suffix <:+ given ∧ call = .name (dotted suffix) := by
  induction given with
  | nil => cases h
  | cons label rest ih =>
    obtain hrest | hlast := List.mem_append.mp h
    · obtain ⟨suffix, hne, hsuffix, hcall⟩ := ih hrest
      exact ⟨suffix, hne, hsuffix.trans (List.suffix_cons label rest), hcall⟩
    · exact ⟨_, List.cons_ne_nil _ _, List.suffix_refl _, List.mem_singleton.mp hlast⟩

variable {label : String} {rest : List String} {octets : Octets} {suffixes : Suffixes}

/-- What is longer than all that was written is not remembered. -/
theorem lookup_ascending (h : Writable (label :: rest))
    (hdraft : empty.afterAll (ascending rest) = .draft octets suffixes) :
    suffixes.lookup (joined (label :: rest)) = none := by
  have hrecorded := recorded_afterAll (ascending rest)
  rw [hdraft] at hrecorded
  cases hlookup : suffixes.lookup (joined (label :: rest)) with
  | none => rfl
  | some i =>
    obtain ⟨text, others, hcall, hne, hothers, hkey⟩ := hrecorded.origin _ (mem_of_lookup hlookup)
    obtain ⟨suffix, -, hsuffix, hname⟩ := mem_ascending hcall
    obtain rfl : text = dotted suffix := Call.name.inj hname
    rw [labels_dotted (h.tail.of_suffix hsuffix).plain] at hothers
    have hrest := hothers.trans hsuffix
    exact absurd hkey.symm (joined_ne h.plain (hrest.trans (List.suffix_cons label rest)) hne
      (Nat.lt_succ_of_le hrest.length_le))

/-- Behind the names that a name ends in, its first label is written. -/
theorem after_ascending (h : Writable (label :: rest))
    (hdraft : empty.afterAll (ascending rest) = .draft octets suffixes) :
    empty.afterAll (ascending (label :: rest)) =
      left (Writer.labels rest (.draft (octets ++ Name.measured label)
        (remembering (joined (label :: rest)) octets.length suffixes))) := by
  have hfresh := lookup_ascending h hdraft
  rw [ascending, afterAll_append_singleton, hdraft, after, Call.step, Writer.name,
    labels_dotted h.plain, Writer.labels_new (h.short label List.mem_cons_self) hfresh]

/-- A label in front of what is spelled. -/
theorem spells_behind {back : Octets} {jumps stop : Nat} (h : Writable (label :: rest))
    (hspells : Spells (octets ++ Name.measured label ++ back).toArray
      (octets ++ Name.measured label).length (octetsOf rest) jumps stop) :
    Spells (octets ++ Name.measured label ++ back).toArray octets.length
      (octetsOf (label :: rest)) jumps stop := by
  have hne := Text.Utf8.ofString_ne_nil (h.plain label List.mem_cons_self).1
  refine .label hne (h.short label List.mem_cons_self) ⟨octets, back, List.append_assoc .., rfl⟩ ?_
  rwa [List.length_append, Name.length_measured, ← Nat.add_assoc] at hspells

/-- **The longest chains.** A name that is written behind all that it ends in is spelled through
    one pointer less than it has labels: of each name only the first label stands where it was
    written. -/
theorem ascending_spelled (h : Writable (label :: rest)) :
    ∃ octets suffixes, empty.afterAll (ascending (label :: rest)) = .draft octets suffixes ∧
      suffixes.lookup (joined (label :: rest)) =
        some (empty.afterAll (ascending rest)).position ∧
      octets.length = span (octetsOf (label :: rest)) + 2 * rest.length + 1 ∧
      Spells octets.toArray (empty.afterAll (ascending rest)).position (octetsOf (label :: rest))
        rest.length octets.length := by
  induction rest generalizing label with
  | nil =>
    have hroot := Writer.appends_octet 0 _ (remembering (joined [label]) 0 []) (Name.measured label)
      rfl
    have hempty : empty.afterAll (ascending []) = .draft [] [] := rfl
    have hdraft := (after_ascending h hempty).trans (congrArg left hroot)
    have hzero : ([] ++ Name.measured label ++ [0]).toArray[([] ++ Name.measured label).length]? =
        some 0 := by
      simp
    have hspells := spells_behind h (.root hzero)
    refine ⟨_, _, hdraft, List.lookup_cons_self, ?_, ?_⟩
    · rw [List.length_append, Name.length_measured, octetsOf_cons, span_cons, Nat.add_comm 1]
      rfl
    · rw [List.length_append]
      exact hspells
  | cons next others ih =>
    obtain ⟨octets, suffixes, hdraft, hlookup, hlength, hspells⟩ := ih h.tail
    generalize (empty.afterAll (ascending others)).position = i at hlookup hspells
    -- Names this short are all written where a pointer reaches.
    have hplace : octets.length < pointerLimit := by
      have hfew := length_le_span (next :: others)
      have htotal := h.tail.total
      rw [List.length_cons] at hfew
      rw [maxLength] at htotal
      rw [hlength, pointerLimit]
      omega
    -- The name itself was remembered last, but it is longer than what it ends in.
    have hkey := joined_ne h.plain (List.suffix_cons label _) (List.cons_ne_nil next others)
      (Nat.lt_succ_self _)
    have hknown := (lookup_remembering_of_ne hkey octets.length suffixes).trans hlookup
    have hpointer := Writer.labels_known (h.tail.short next List.mem_cons_self) hknown
      (octets ++ Name.measured label)
    have hholds : Holds (octets ++ Name.measured label ++ Octets.ofWord16 (pointerTo i)).toArray
        (octets ++ Name.measured label).length (Octets.ofWord16 (pointerTo i)) :=
      ⟨_, [], by rw [List.append_nil], rfl⟩
    have hgrown := hspells.append (Name.measured label ++ Octets.ofWord16 (pointerTo i)).toArray
    rw [List.append_toArray, ← List.append_assoc] at hgrown
    refine ⟨_, _, (after_ascending h hdraft).trans (congrArg left hpointer), ?_, ?_, ?_⟩
    · rw [remembering, if_pos hplace, List.lookup_cons_self, hdraft]
      rfl
    · rw [List.length_append, List.length_append, Name.length_measured, hlength,
        Octets.length_ofWord16, octetsOf_cons label, span_cons, List.length_cons]
      omega
    · rw [hdraft, List.length_append]
      exact spells_behind h
        (spells_pointerTo (Nat.lt_trans hspells.lt_stop hplace) hholds hgrown)

theorem position_ascending (h : Writable (label :: rest)) :
    (empty.afterAll (ascending (label :: rest))).position =
      span (octetsOf (label :: rest)) + 2 * rest.length + 1 := by
  obtain ⟨octets, suffixes, hdraft, -, hlength, -⟩ := ascending_spelled h
  rw [hdraft]
  exact hlength

/-- Written behind all that it ends in, a name is read only if it has at most one label more
    than pointers are followed. -/
theorem read_ascending (h : Writable (label :: rest)) (access : Access) :
    Reader.name ⟨(empty.afterAll (ascending (label :: rest))).octets, access⟩
        (empty.afterAll (ascending rest)).position =
      if rest.length ≤ maxJumps then
        .ok (dotted (label :: rest)) (empty.afterAll (ascending (label :: rest))).position
      else .error .tooManyJumps (empty.afterAll (ascending (label :: rest))).position := by
  have hsized := h.sized (List.cons_ne_nil label rest)
  have hlabels := labels_dotted h.plain
  have htext : normalised (dotted (label :: rest)) = dotted (label :: rest) := by
    rw [normalised, hlabels, if_neg (List.cons_ne_nil _ _)]
  obtain ⟨octets, suffixes, hdraft, -, -, hspells⟩ := ascending_spelled h
  rw [← hlabels] at hspells
  rw [← htext, hdraft]
  exact Reader.name_of_sized hsized hspells

/-- A name of 34 labels behind all that it ends in: its 33 pointers are one too many. -/
theorem nested_given_up :
    (∀ call ∈ ascending (List.replicate 34 "a"), ∃ name, call = .name name ∧ Sized name) ∧
      (empty.afterAll (ascending (List.replicate 33 "a"))).position = 131 ∧
      (empty.afterAll (ascending (List.replicate 34 "a"))).position = 135 ∧
      Reader.name ⟨(empty.afterAll (ascending (List.replicate 34 "a"))).octets, .draft⟩ 131 =
        .error .tooManyJumps 135 := by
  have hwritable : Writable (List.replicate 34 "a") := by
    refine ⟨fun label hlabel => ?_, fun label hlabel => ?_, by decide +kernel⟩
    all_goals
      rw [List.eq_of_mem_replicate hlabel]
      decide
  have hplace : (empty.afterAll (ascending (List.replicate 33 "a"))).position = 131 := by
    rw [List.replicate_succ, position_ascending hwritable.tail]
    decide +kernel
  have hstop : (empty.afterAll (ascending (List.replicate 34 "a"))).position = 135 := by
    rw [List.replicate_succ, position_ascending hwritable]
    decide +kernel
  refine ⟨fun call hcall => ?_, hplace, hstop, ?_⟩
  · obtain ⟨suffix, hne, hsuffix, hname⟩ := mem_ascending hcall
    exact ⟨dotted suffix, hname, (hwritable.of_suffix hsuffix).sized hne⟩
  · have hread := read_ascending hwritable .draft
    rw [if_neg (by decide)] at hread
    rw [← hplace, ← hstop]
    exact hread

end Wire

end PassiveDns.Dns
