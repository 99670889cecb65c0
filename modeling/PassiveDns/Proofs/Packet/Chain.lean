/-
  PassiveDns.Proofs.Packet.Chain

  Chains of extension headers. `Extension` is one header with its content; a chain that was
  laid out is walked from end to end, and the walk goes on with what stands behind it
  (`extensionChain_append`). Any octets begin with such a chain, perhaps an empty one, and
  behind it stands what ends the walk (`exists_stops`); so a walk meets a fragment header
  exactly where a chain leads to one (`leadsToFragment_iff`), and is told where a chain is
  cut (`walk_cut`). `chain_walked_to_its_end` puts together where walks end.
-/
import Mathlib.Tactic.Common
import PassiveDns.Packet.Header
import PassiveDns.Proofs.Octets

namespace PassiveDns.Packet

open Octets

/-- An extension header: its own protocol number, its length field, and what follows that. -/
structure Extension where
  protocol : UInt8
  field : UInt8
  content : Octets
  known : isExtension protocol = true
  exact : content.length + 2 = extensionLength protocol field

/-- The protocol number that announces a chain of headers, behind which stands `last`. -/
def firstOf : List Extension → UInt8 → UInt8
  | [], last => last
  | extension :: _, _ => extension.protocol

/-- The octets of a chain of headers, each of which announces the next one. -/
def chainOctets : List Extension → UInt8 → Octets
  | [], _ => []
  | extension :: rest, last =>
    firstOf rest last :: extension.field :: extension.content ++ chainOctets rest last

/-- A fragment header. `spare` stands for the two bits between offset and flag. -/
def fragmentOctets (next reserved : UInt8) (spare : Fin 4) (id : UInt32) (offset : Nat)
    (more : Bool) : Octets :=
  [next, reserved] ++ (ofWord16 (UInt16.ofNat (offset * 8 + spare * 2 + more.toNat)) ++ ofWord32 id)

/-- Extension headers in front of octets lead to a fragment header. -/
def LeadsToFragment (protocol : UInt8) (data : Octets) : Prop :=
  ∃ extensions rest, protocol = firstOf extensions fragmentProtocol ∧
    data = chainOctets extensions fragmentProtocol ++ rest ∧ 8 ≤ rest.length

/-- The result of a walk with `count` octets in front. -/
def further (count : Nat) (walk : Except PacketError ExtensionChain) :
    Except PacketError ExtensionChain :=
  walk.map (·.behind count)

theorem further_zero (walk : Except PacketError ExtensionChain) : further 0 walk = walk := by
  cases walk with
  | error cause => rfl
  | ok chain =>
    show Except.ok (chain.behind 0) = _
    rw [ExtensionChain.behind, Nat.zero_add]

theorem further_further (a b : Nat) (walk : Except PacketError ExtensionChain) :
    further a (further b walk) = further (a + b) walk := by
  cases walk with
  | error cause => rfl
  | ok chain =>
    show Except.ok ((chain.behind b).behind a) = Except.ok (chain.behind (a + b))
    simp only [ExtensionChain.behind, Nat.add_assoc]

theorem extensionChain_cons (extension : Extension) (next : UInt8) (data : Octets) :
    extensionChain extension.protocol (next :: extension.field :: extension.content ++ data) =
      further (extension.content.length + 2) (extensionChain next data) := by
  have hlength := extension.exact
  rw [extensionChain.eq_def, if_pos extension.known]
  simp only [List.cons_append, ← hlength]
  rw [if_pos (by simp only [List.length_cons, List.length_append]; omega)]
  rw [List.drop_succ_cons, List.drop_succ_cons, List.drop_left]
  rfl

/-- A chain is walked to its end. -/
theorem extensionChain_append (extensions : List Extension) (last : UInt8) (data : Octets) :
    extensionChain (firstOf extensions last) (chainOctets extensions last ++ data) =
      further (chainOctets extensions last).length (extensionChain last data) := by
  induction extensions with
  | nil => exact (further_zero _).symm
  | cons extension rest ih =>
    rw [chainOctets, List.append_assoc]
    show extensionChain extension.protocol _ = _
    rw [extensionChain_cons, ih, further_further]
    congr 1
    simp only [List.cons_append, List.length_cons, List.length_append]
    omega

/-- A fragment header is read as it was laid out. -/
theorem extensionChain_fragment (next reserved : UInt8) (spare : Fin 4) (id : UInt32)
    {offset : Nat} (hoffset : offset < 8192) (more : Bool) (data : Octets) :
    extensionChain fragmentProtocol (fragmentOctets next reserved spare id offset more ++ data) =
      .ok ⟨next, 8, some ⟨id, offset, more⟩⟩ := by
  have hspare := spare.isLt
  have hmore := more.toNat_le
  have hword : (UInt16.ofNat (offset * 8 + spare * 2 + more.toNat)).toNat =
      offset * 8 + spare * 2 + more.toNat := by
    rw [UInt16.toNat_ofNat']
    omega
  have hread : extensionChain fragmentProtocol
      (fragmentOctets next reserved spare id offset more ++ data) =
      fragmentHeader (fragmentOctets next reserved spare id offset more ++ data) := by
    rw [extensionChain.eq_def, if_neg (by decide), if_pos rfl]
  rw [hread]
  show Except.ok _ = _
  rw [toNat_ofWord16, word32_ofNat, hword]
  have hoffset' : (offset * 8 + spare * 2 + more.toNat) / 8 = offset := by
    omega
  have hbit : (offset * 8 + spare * 2 + more.toNat).testBit 0 = more := by
    rw [Nat.testBit_eq_decide_div_mod_eq]
    cases more with
    | false => exact decide_eq_false (by simp only [Bool.toNat_false]; omega)
    | true => exact decide_eq_true (by simp only [Bool.toNat_true]; omega)
  rw [hoffset', hbit]

/-! ## Sizes -/

/-- The size of an extension header. That of an authentication header is counted in units of
    four octets and two more, that of the others in units of eight and one more. -/
def Extension.size (extension : Extension) : Nat :=
  if extension.protocol = 51 then 4 * (extension.field.toNat + 2)
  else 8 * (extension.field.toNat + 1)

/-- The size of a chain of headers. -/
def chainSize (extensions : List Extension) : Nat := (extensions.map Extension.size).sum

/-- The octets of a header that announces `next`. -/
def Extension.octets (extension : Extension) (next : UInt8) : Octets :=
  next :: extension.field :: extension.content

theorem two_le_extensionLength (protocol field : UInt8) : 2 ≤ extensionLength protocol field := by
  unfold extensionLength
  split <;> omega

theorem Extension.size_eq (extension : Extension) :
    extension.size = extensionLength extension.protocol extension.field := by
  rw [size, extensionLength, Nat.mul_comm 4, Nat.mul_comm 8]

theorem Extension.eight_le_size (extension : Extension) : 8 ≤ extension.size := by
  unfold size
  split <;> omega

theorem Extension.length_octets (extension : Extension) (next : UInt8) :
    (extension.octets next).length = extension.size := by
  rw [extension.size_eq, ← extension.exact]
  rfl

theorem chainOctets_cons (extension : Extension) (rest : List Extension) (last : UInt8) :
    chainOctets (extension :: rest) last =
      extension.octets (firstOf rest last) ++ chainOctets rest last :=
  rfl

theorem chainSize_cons (extension : Extension) (rest : List Extension) :
    chainSize (extension :: rest) = extension.size + chainSize rest :=
  rfl

theorem length_chainOctets (extensions : List Extension) (last : UInt8) :
    (chainOctets extensions last).length = chainSize extensions := by
  induction extensions with
  | nil => rfl
  | cons extension rest ih =>
    rw [chainOctets_cons, List.length_append, extension.length_octets, ih, chainSize_cons]

/-- Every header has eight octets or more. -/
theorem length_le_chainSize (extensions : List Extension) :
    8 * extensions.length ≤ chainSize extensions := by
  induction extensions with
  | nil => exact Nat.le_refl 0
  | cons extension rest ih =>
    have hsize := extension.eight_le_size
    rw [List.length_cons, chainSize_cons]
    omega

/-! ## The end of a walk -/

/-- What ends a walk in front of octets that `protocol` announces, and with which result: a
    protocol that is no extension header, a fragment header, or one of both that is cut. -/
inductive Stops (protocol : UInt8) (data : Octets) : Except PacketError ExtensionChain → Prop
  | other (hextension : isExtension protocol = false) (hfragment : protocol ≠ fragmentProtocol) :
    Stops protocol data (.ok ⟨protocol, 0, none⟩)
  | fragment (next reserved : UInt8) (spare : Fin 4) (id : UInt32) (offset : Nat) (more : Bool)
    (rest : Octets) (hprotocol : protocol = fragmentProtocol) (hoffset : offset < 8192)
    (hdata : data = fragmentOctets next reserved spare id offset more ++ rest) :
    Stops protocol data (.ok ⟨next, 8, some ⟨id, offset, more⟩⟩)
  | fragmentCut (hprotocol : protocol = fragmentProtocol) (hcut : data.length < 8) :
    Stops protocol data (.error (.truncated .ipv6Fragment))
  | extensionCut (hextension : isExtension protocol = true)
    (hcut : ∀ next field rest, data = next :: field :: rest →
      data.length < extensionLength protocol field) :
    Stops protocol data (.error (.truncated .ipv6Extension))

/-- Eight octets are always a fragment header. -/
theorem exists_fragmentOctets {data : Octets} (h : 8 ≤ data.length) :
    ∃ (next reserved : UInt8) (spare : Fin 4) (id : UInt32) (offset : Nat) (more : Bool)
      (rest : Octets), offset < 8192 ∧
        data = fragmentOctets next reserved spare id offset more ++ rest := by
  match data, h with
  | next :: reserved :: hi :: lo :: a :: b :: c :: d :: rest, _ =>
    have hword : (word16 hi lo).toNat < 65536 := (word16 hi lo).toNat_lt
    refine ⟨next, reserved, ⟨(word16 hi lo).toNat / 2 % 4, by omega⟩, word32 a b c d,
      (word16 hi lo).toNat / 8, decide ((word16 hi lo).toNat % 2 = 1), rest, by omega, ?_⟩
    have hbit : (decide ((word16 hi lo).toNat % 2 = 1)).toNat = (word16 hi lo).toNat % 2 := by
      rcases Nat.mod_two_eq_zero_or_one (word16 hi lo).toNat with heq | heq <;> rw [heq] <;> rfl
    have hsum : (word16 hi lo).toNat / 8 * 8 + (word16 hi lo).toNat / 2 % 4 * 2 +
        (word16 hi lo).toNat % 2 = (word16 hi lo).toNat := by
      omega
    rw [fragmentOctets, hbit, hsum, UInt16.ofNat_toNat, ofWord16_word16, ofWord32_word32]
    rfl

/-- The walk ends there. -/
theorem Stops.walk {protocol : UInt8} {data : Octets} {result : Except PacketError ExtensionChain}
    (h : Stops protocol data result) : extensionChain protocol data = result := by
  cases h with
  | other hextension hfragment =>
    rw [extensionChain.eq_def, if_neg (by simp [hextension]), if_neg hfragment]
  | fragment next reserved spare id offset more rest hprotocol hoffset hdata =>
    rw [hprotocol, hdata]
    exact extensionChain_fragment next reserved spare id hoffset more rest
  | fragmentCut hprotocol hcut =>
    rw [hprotocol, extensionChain.eq_def, if_neg (by decide), if_pos rfl, fragmentHeader.eq_def]
    split
    · simp only [List.length_cons] at hcut
      omega
    · rfl
  | extensionCut hextension hcut =>
    rw [extensionChain.eq_def, if_pos hextension]
    split
    · rename_i next field rest
      rw [if_neg (Nat.not_le_of_lt (hcut next field rest rfl))]
    · rfl

/-- A header that is not all there ends the walk. -/
theorem stops_of_cut (extension : Extension) (next : UInt8) {front : Octets}
    (h : front <+: extension.octets next) (hcut : front.length < extension.size) :
    Stops extension.protocol front (.error (.truncated .ipv6Extension)) := by
  refine .extensionCut extension.known fun first field rest hfront => ?_
  -- as far as it is there it says how long it is
  rw [hfront, Extension.octets, List.cons_prefix_cons, List.cons_prefix_cons] at h
  rw [h.2.1, ← extension.size_eq]
  exact hcut

/-- A fragment header that is not all there ends the walk. -/
theorem stops_of_short {front : Octets} (h : front.length < 8) :
    Stops fragmentProtocol front (.error (.truncated .ipv6Fragment)) :=
  .fragmentCut rfl h

/-! ## Chains -/

/-- A walk over a chain and what stands behind it. -/
theorem walk_of_stops (extensions : List Extension) {last : UInt8} {rest : Octets}
    {result : Except PacketError ExtensionChain} (h : Stops last rest result) :
    extensionChain (firstOf extensions last) (chainOctets extensions last ++ rest) =
      further (chainSize extensions) result := by
  rw [extensionChain_append, length_chainOctets, h.walk]

/-- A chain that is cut anywhere is a chain of whole headers and a header that is cut. -/
theorem walk_cut {extensions : List Extension} {last : UInt8} {front : Octets}
    (h : front <+: chainOctets extensions last) (hcut : front.length < chainSize extensions) :
    extensionChain (firstOf extensions last) front = .error (.truncated .ipv6Extension) := by
  induction extensions generalizing front with
  | nil => exact absurd hcut (Nat.not_lt_zero _)
  | cons extension rest ih =>
    have hlength := extension.length_octets (firstOf rest last)
    rw [chainOctets_cons] at h
    rw [chainSize_cons] at hcut
    by_cases hwhole : extension.size ≤ front.length
    · -- the cut is behind this header
      obtain ⟨more, rfl⟩ : extension.octets (firstOf rest last) <+: front :=
        List.prefix_of_prefix_length_le (List.prefix_append ..) h (by omega)
      rw [List.length_append] at hcut
      have hmore := ih ((List.prefix_append_right_inj _).mp h) (by omega)
      show extensionChain extension.protocol _ = _
      rw [Extension.octets, extensionChain_cons, hmore]
      rfl
    · have hfront : front <+: extension.octets (firstOf rest last) :=
        List.prefix_of_prefix_length_le h (List.prefix_append ..) (by omega)
      exact (stops_of_cut extension _ hfront (by omega)).walk

/-- In front of any octets there is a chain, and behind it the end of the walk. -/
theorem exists_stops (protocol : UInt8) (data : Octets) :
    ∃ extensions last rest result, protocol = firstOf extensions last ∧
      data = chainOctets extensions last ++ rest ∧ Stops last rest result := by
  -- on the length, since a header leaves fewer octets behind it
  induction hn : data.length using Nat.strongRecOn generalizing protocol data with
  | _ n ih =>
    by_cases hextension : isExtension protocol = true
    · by_cases hwhole : ∃ next field rest, data = next :: field :: rest ∧
          extensionLength protocol field ≤ data.length
      · obtain ⟨next, field, rest, rfl, hlength⟩ := hwhole
        have htwo := two_le_extensionLength protocol field
        obtain ⟨count, hcount⟩ := Nat.exists_eq_add_of_le' htwo
        simp only [List.length_cons] at hlength hn
        have hcontent : (rest.take count).length + 2 = extensionLength protocol field := by
          rw [List.length_take_of_le (by omega), hcount]
        obtain ⟨extensions, last, behind, result, hnext, hdrop, hstops⟩ :=
          ih (rest.drop count).length (by rw [List.length_drop]; omega) next (rest.drop count) rfl
        refine ⟨⟨protocol, field, rest.take count, hextension, hcontent⟩ :: extensions, last,
          behind, result, rfl, ?_, hstops⟩
        rw [chainOctets_cons, List.append_assoc, ← hdrop, ← hnext]
        show _ = next :: field :: (rest.take count ++ rest.drop count)
        rw [List.take_append_drop]
      · refine ⟨[], protocol, data, _, rfl, rfl, .extensionCut hextension ?_⟩
        intro next field rest hdata
        by_contra hlength
        exact hwhole ⟨next, field, rest, hdata, Nat.le_of_not_lt hlength⟩
    · rw [Bool.not_eq_true] at hextension
      by_cases hprotocol : protocol = fragmentProtocol
      · by_cases hcut : data.length < 8
        · exact ⟨[], protocol, data, _, rfl, rfl, .fragmentCut hprotocol hcut⟩
        · obtain ⟨next, reserved, spare, id, offset, more, rest, hoffset, hdata⟩ :=
            exists_fragmentOctets (Nat.le_of_not_lt hcut)
          exact ⟨[], protocol, data, _, rfl, rfl,
            .fragment next reserved spare id offset more rest hprotocol hoffset hdata⟩
      · exact ⟨[], protocol, data, _, rfl, rfl, .other hextension hprotocol⟩

/-! ## Fragment headers -/

/-- A walk that meets a fragment header was led to it. -/
theorem leadsToFragment_of_walk {protocol : UInt8} {data : Octets} {chain : ExtensionChain}
    (h : extensionChain protocol data = .ok chain) (hfragment : chain.fragment ≠ none) :
    LeadsToFragment protocol data := by
  obtain ⟨extensions, last, rest, result, hprotocol, hdata, hstops⟩ := exists_stops protocol data
  rw [hprotocol, hdata, walk_of_stops extensions hstops] at h
  cases hstops with
  | other =>
    obtain rfl := Except.ok.inj h
    exact absurd rfl hfragment
  | fragment next reserved spare id offset more behind hlast hoffset hrest =>
    rw [hlast] at hprotocol hdata
    refine ⟨extensions, rest, hprotocol, hdata, ?_⟩
    rw [hrest, List.length_append]
    exact Nat.le_add_right 8 _
  | fragmentCut => cases h
  | extensionCut => cases h

theorem leadsToFragment_iff {protocol : UInt8} {data : Octets} :
    LeadsToFragment protocol data ↔
      ∃ chain, extensionChain protocol data = .ok chain ∧ chain.fragment ≠ none := by
  constructor
  · rintro ⟨extensions, rest, rfl, rfl, hrest⟩
    obtain ⟨next, reserved, spare, id, offset, more, behind, hoffset, hdata⟩ :=
      exists_fragmentOctets hrest
    have hstops := Stops.fragment next reserved spare id offset more behind rfl hoffset hdata
    exact ⟨_, walk_of_stops extensions hstops, Option.some_ne_none _⟩
  · rintro ⟨chain, hwalk, hfragment⟩
    exact leadsToFragment_of_walk hwalk hfragment

/-! ## Walks -/

/-- No more octets are taken than there are. -/
theorem length_le_of_walk {protocol : UInt8} {data : Octets} {chain : ExtensionChain}
    (h : extensionChain protocol data = .ok chain) : chain.length ≤ data.length := by
  obtain ⟨extensions, last, rest, result, rfl, rfl, hstops⟩ := exists_stops protocol data
  rw [walk_of_stops extensions hstops] at h
  rw [List.length_append, length_chainOctets]
  cases hstops with
  | other =>
    obtain rfl := Except.ok.inj h
    exact Nat.le_add_right (chainSize extensions) _
  | fragment next reserved spare id offset more behind _ _ hrest =>
    obtain rfl := Except.ok.inj h
    rw [hrest, List.length_append]
    exact Nat.add_le_add_left (Nat.le_add_right 8 _) (chainSize extensions)
  | fragmentCut => cases h
  | extensionCut => cases h

/-- A chain of extension headers, in any order and number, is walked to the protocol behind it,
    or to the end of a fragment header, and what stands behind that is not looked at. Where it
    is cut, it is reported as cut. In front of any octets a walk takes whole headers, of eight
    octets or more each, until something ends it, and never more octets than there are. -/
theorem chain_walked_to_its_end :
    (∀ (extensions : List Extension) (last : UInt8) (rest : Octets),
      last ∉ [0, 43, 44, 51, 60] →
        extensionChain (firstOf extensions last) (chainOctets extensions last ++ rest) =
          .ok ⟨last, chainSize extensions, none⟩) ∧
    (∀ (extensions : List Extension) (next reserved : UInt8) (spare : Fin 4) (id : UInt32)
      (offset : Nat) (more : Bool) (rest : Octets), offset < 8192 →
        extensionChain (firstOf extensions 44) (chainOctets extensions 44 ++
            (fragmentOctets next reserved spare id offset more ++ rest)) =
          .ok ⟨next, chainSize extensions + 8, some ⟨id, offset, more⟩⟩) ∧
    (∀ (extensions : List Extension) (last : UInt8) (front : Octets),
      front <+: chainOctets extensions last → front ≠ chainOctets extensions last →
        extensionChain (firstOf extensions last) front = .error (.truncated .ipv6Extension)) ∧
    (∀ (extensions : List Extension) (next reserved : UInt8) (spare : Fin 4) (id : UInt32)
      (offset : Nat) (more : Bool) (front : Octets),
      front <+: chainOctets extensions 44 ++ fragmentOctets next reserved spare id offset more →
      front ≠ chainOctets extensions 44 ++ fragmentOctets next reserved spare id offset more →
        extensionChain (firstOf extensions 44) front = .error (.truncated
          (if front.length < chainSize extensions then .ipv6Extension else .ipv6Fragment))) ∧
    ∀ (protocol : UInt8) (data : Octets),
      (∃ extensions last rest result, protocol = firstOf extensions last ∧
        data = chainOctets extensions last ++ rest ∧ Stops last rest result ∧
        extensionChain protocol data = further (chainSize extensions) result ∧
        8 * extensions.length ≤ data.length) ∧
      ∀ chain, extensionChain protocol data = .ok chain → chain.length ≤ data.length := by
  refine ⟨fun extensions last rest hlast => ?_, ?_, fun extensions last front hfront hne => ?_, ?_,
    fun protocol data => ⟨?_, fun chain => length_le_of_walk⟩⟩
  · have hother : isExtension last = false ∧ last ≠ fragmentProtocol := by
      simp only [List.mem_cons, List.not_mem_nil, not_or] at hlast
      simp [isExtension, fragmentProtocol, hlast]
    exact walk_of_stops extensions (.other hother.1 hother.2)
  · intro extensions next reserved spare id offset more rest hoffset
    exact walk_of_stops extensions
      (.fragment next reserved spare id offset more rest rfl hoffset rfl)
  · refine walk_cut hfront ?_
    rw [← length_chainOctets extensions last]
    exact Nat.lt_of_le_of_ne hfront.length_le fun hlength => hne (hfront.eq_of_length hlength)
  · intro extensions next reserved spare id offset more front hfront hne
    have hlength := length_chainOctets extensions 44
    by_cases hcut : front.length < chainSize extensions
    · rw [if_pos hcut]
      refine walk_cut (List.prefix_of_prefix_length_le hfront (List.prefix_append ..) ?_) hcut
      omega
    · -- the cut is in the fragment header
      obtain ⟨behind, rfl⟩ : chainOctets extensions 44 <+: front :=
        List.prefix_of_prefix_length_le (List.prefix_append ..) hfront (by omega)
      rw [if_neg hcut]
      have hbehind := (List.prefix_append_right_inj _).mp hfront
      have hshort : behind.length < 8 := by
        refine Nat.lt_of_le_of_ne hbehind.length_le fun heq => hne ?_
        rw [hbehind.eq_of_length heq]
      exact walk_of_stops extensions (stops_of_short hshort)
  · obtain ⟨extensions, last, rest, result, hprotocol, hdata, hstops⟩ := exists_stops protocol data
    refine ⟨extensions, last, rest, result, hprotocol, hdata, hstops, ?_, ?_⟩
    · rw [hprotocol, hdata, walk_of_stops extensions hstops]
    · have hcount := length_le_chainSize extensions
      rw [hdata, List.length_append, length_chainOctets]
      omega

/-- Hop-by-hop options, and an authentication header of twelve octets in front of a fragment. -/
example : extensionChain 0 ([51, 0, 1, 4, 0, 0, 0, 0] ++ [44, 1, 0, 0, 0, 0, 1, 0, 0, 0, 0, 9] ++
    [17, 0, 0x00, 0x19, 0xde, 0xad, 0xbe, 0xef] ++ [7, 7]) =
      .ok ⟨17, 28, some ⟨0xdeadbeef, 3, true⟩⟩ := by
  cbv

end PassiveDns.Packet
