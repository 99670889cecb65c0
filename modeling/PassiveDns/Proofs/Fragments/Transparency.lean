/-
  PassiveDns.Proofs.Fragments.Transparency

  A datagram is classified alike whether it comes whole or in fragments. A frame with a
  fragment is classified as that fragment (`classify_fragment`), and a frame with all of a
  datagram as the datagram that its fragments make (`classify_whole`); extension headers
  behind the fragment header are walked in the one case in one go with those in front of it,
  and in the other by themselves. `fragmentation_transparent` puts this together with the
  reassembly of the fragments in any order.
-/
import Mathlib.Data.List.Permutation
import PassiveDns.Proofs.Datagrams
import PassiveDns.Proofs.Packet.Chain
import PassiveDns.Proofs.Packet.Layout

namespace PassiveDns.Packet

/-! ## Packets -/

/-- The packets in which a fragment travels. Each has header fields of its own, and in
    version 6 a chain of extension headers of its own in front of the fragment header. -/
inductive CarriesFragment (f : Fragment) : Octets → Prop
  | v4 (fields : IPv4Fields) (route : Route IPv4) (id : UInt16) (hheader : f.header = route.v4)
    (hid : f.id = UInt32.ofNat id.toNat) (hfits : fields.length + f.payload.length < 65536) :
    CarriesFragment f (fields.packet route id false f.more f.offset f.payload)
  | v6 (fields : IPv6Fields) (route : Route IPv6) (front : List Extension) (reserved : UInt8)
    (spare : Fin 4) (hheader : f.header = route.v6)
    (hfits : (chainOctets front fragmentProtocol ++
      (fragmentOctets route.protocol reserved spare f.id f.offset f.more ++
        f.payload)).length < 65536) :
    CarriesFragment f (fields.packet { route with protocol := firstOf front fragmentProtocol }
      (chainOctets front fragmentProtocol ++
        (fragmentOctets route.protocol reserved spare f.id f.offset f.more ++ f.payload)))

/-- The packets in which a whole datagram travels. What could be cut into fragments, `part`,
    is the payload of a version 4 header, or what stands behind a chain of extension headers
    in version 6; the protocol of `header` is what it begins with. -/
inductive CarriesWhole (header : IpHeader) (part : Octets) : Octets → Prop
  | v4 (fields : IPv4Fields) (route : Route IPv4) (id : UInt16) (keepWhole : Bool)
    (hheader : header = route.v4) (hfits : fields.length + part.length < 65536) :
    CarriesWhole header part (fields.packet route id keepWhole false 0 part)
  | v6 (fields : IPv6Fields) (route : Route IPv6) (front : List Extension)
    (hheader : header = route.v6)
    (hfits : (chainOctets front route.protocol ++ part).length < 65536) :
    CarriesWhole header part (fields.packet { route with protocol := firstOf front route.protocol }
      (chainOctets front route.protocol ++ part))

/-- A frame with a fragment, perhaps padded. -/
def FragmentFrame (link : LinkType) (f : Fragment) (frame : Frame) : Prop :=
  frame.time = f.time ∧ ∃ packet padding, CarriesFragment f packet ∧
    Framed f.header.version (packet ++ padding) link frame.octets

/-- A frame with a whole datagram, perhaps padded. -/
def WholeFrame (link : LinkType) (header : IpHeader) (part : Octets) (frame : Frame) : Prop :=
  ∃ packet padding, CarriesWhole header part packet ∧
    Framed header.version (packet ++ padding) link frame.octets

/-! ## Fragments -/

/-- Fragments that are a part of a datagram in pieces, under one identification and within
    the limits. -/
structure Cut (header : IpHeader) (part : Octets) (fragments : List Fragment) : Prop where
  tiles : Tiles 0 fragments
  several : 2 ≤ fragments.length
  payload : fragments.flatMap Fragment.payload = part
  headed : ∀ f ∈ fragments, f.header = header
  marked : ∃ id, ∀ f ∈ fragments, f.id = id
  checked : ∀ f ∈ fragments, (FragmentLimits.ofVersion header.version).check f = .ok ()
  few : fragments.length ≤ (FragmentLimits.ofVersion header.version).maxFragments

/-- A fragment is followed by others or stands behind others. -/
theorem more_or_behind {start : Nat} {fragments : List Fragment} (h : Tiles start fragments)
    (hseveral : 2 ≤ fragments.length) : ∀ f ∈ fragments, f.more = true ∨ start < f.start := by
  cases h with
  | last => exact absurd hseveral (by simp)
  | before hstart hmore hlength hrest =>
    intro f hf
    rcases List.mem_cons.mp hf with rfl | hf
    · exact .inl hmore
    · have := (hrest.bounds f hf).1
      right
      omega

theorem offset_lt_of_check {version : IpVersion} {f : Fragment}
    (h : (FragmentLimits.ofVersion version).check f = .ok ()) : f.offset < 8192 := by
  rw [FragmentLimits.check] at h
  split at h
  · cases h
  · rename_i hoffset
    cases version with
    | v4 =>
      have : ¬8183 < f.offset := hoffset
      omega
    | v6 =>
      have : ¬8191 < f.offset := hoffset
      omega

section Classify

variable {ports : Ports} {link : LinkType} {frame : Frame}

/-- A frame with a fragment is classified as that fragment. -/
theorem classify_fragment {f : Fragment} (h : FragmentFrame link f frame)
    (hoffset : f.offset < 8192) (hcut : f.more = true ∨ 0 < f.offset) :
    classify link ports frame = .ok (.fragment f) := by
  obtain ⟨htime, packet, padding, hcarries, hframed⟩ := h
  obtain ⟨octets, time⟩ := frame
  obtain rfl : time = f.time := htime
  cases hcarries with
  | v4 fields route id hheader hid hfits =>
    rw [hheader] at hframed
    rw [classify_framed hframed (fields.version_packet ..)]
    show classifyIPv4 ports f.time _ _ = _
    rw [classifyIPv4, ofIPv4_packet fields route id false f.more hoffset hfits]
    have hpart : (!false && (f.more || decide (f.offset ≠ 0))) = true := by
      rcases hcut with hmore | hbehind
      · simp [hmore]
      · simp [Nat.pos_iff_ne_zero.mp hbehind]
    show (if (!false && (f.more || decide (f.offset ≠ 0))) = true then _ else _) = _
    rw [if_pos hpart]
    show Except.ok (Classified.fragment
      ⟨route.v4, UInt32.ofNat id.toNat, f.offset, f.more, f.payload, f.time⟩) = _
    rw [← hheader, ← hid]
  | v6 fields route front reserved spare hheader hfits =>
    rw [hheader] at hframed
    rw [classify_framed hframed (fields.version_packet ..)]
    show classifyIPv6 ports f.time _ _ = _
    rw [classifyIPv6, ofIPv6_packet fields _ hfits]
    show (extensionChain (firstOf front fragmentProtocol) _ >>= _) = _
    rw [extensionChain_append, extensionChain_fragment _ _ _ _ hoffset]
    show Except.ok (Classified.fragment ⟨route.v6, f.id, f.offset, f.more, _, f.time⟩) = _
    rw [← hheader]
    show Except.ok (Classified.fragment ⟨f.header, f.id, f.offset, f.more,
      List.drop ((chainOctets front fragmentProtocol).length + 8) _, f.time⟩) = _
    rw [← List.drop_drop, List.drop_left]
    rfl

/-- A frame with a whole datagram is classified as the datagram in fragments is. -/
theorem classify_whole {header : IpHeader} {part : Octets} (h : WholeFrame link header part frame)
    (hplain : header.version = .v6 → ¬LeadsToFragment header.protocol part) :
    classify link ports frame = classifyDatagram ports ⟨header, part, frame.time⟩ := by
  obtain ⟨packet, padding, hcarries, hframed⟩ := h
  obtain ⟨octets, time⟩ := frame
  cases hcarries with
  | v4 fields route id keepWhole hheader hfits =>
    rw [hheader] at hframed ⊢
    rw [classify_framed hframed (fields.version_packet ..)]
    show classifyIPv4 ports time _ _ = _
    rw [classifyIPv4, ofIPv4_packet fields route id keepWhole false (by decide) hfits]
    show (if (!keepWhole && (false || decide (0 ≠ 0))) = true then _ else _) = _
    rw [if_neg (by simp)]
    rfl
  | v6 fields route front hheader hfits =>
    rw [hheader] at hplain hframed ⊢
    rw [classify_framed hframed (fields.version_packet ..)]
    show classifyIPv6 ports time _ _ = _
    rw [classifyIPv6, ofIPv6_packet fields _ hfits]
    show (extensionChain (firstOf front route.protocol) _ >>= _) =
      (extensionChain route.protocol part >>= _)
    rw [extensionChain_append]
    cases hwalk : extensionChain route.protocol part with
    | error cause => rfl
    | ok chain =>
      have hnone : chain.fragment = none := by
        by_contra hfragment
        exact hplain rfl (leadsToFragment_iff.mpr ⟨chain, hwalk, hfragment⟩)
      obtain ⟨next, length, fragment⟩ := chain
      obtain rfl : fragment = none := hnone
      show ofTransport ports time _ ⟨.v6, .v6 route.source, .v6 route.destination, next⟩
        (List.drop ((chainOctets front route.protocol).length + length) _) = _
      rw [← List.drop_drop, List.drop_left]
      rfl

end Classify

/-! ## Whole datagrams -/

/-- A fragment, the frame in which it travels, and when it arrives. -/
structure Passage where
  fragment : Fragment
  frame : Frame
  arrival : Instant

/-- A datagram is cut into fragments, which travel in frames of their own and arrive in any
    order. Each frame is classified as its fragment; the fragments give one datagram; and this
    is classified as is a frame in which all travels at once, taken at the time of the fragment
    at offset zero. -/
theorem fragmentation_transparent (ports : Ports) {link : LinkType} {header : IpHeader}
    {part : Octets} {fragments : List Fragment} {passages : List Passage}
    (hcut : Cut header part fragments)
    (hplain : header.version = .v6 → ¬LeadsToFragment header.protocol part)
    (hall : (passages.map Passage.fragment).Perm fragments)
    (hframes : ∀ p ∈ passages, FragmentFrame link p.fragment p.frame) :
    (∀ p ∈ passages, classify link ports p.frame = .ok (.fragment p.fragment)) ∧
      ∃ datagram, ((Reassembly.empty (.ofVersion header.version)).yields
          (passages.map fun p => (p.fragment, p.arrival))).map Prod.snd = [datagram] ∧
        ∀ frame first, WholeFrame link header part frame → first ∈ fragments → first.offset = 0 →
          frame.time = first.time →
          classifyDatagram ports datagram = classify link ports frame := by
  obtain ⟨id, hid⟩ := hcut.marked
  refine ⟨fun p hp => ?_, ?_⟩
  · have hmem : p.fragment ∈ fragments := hall.mem_iff.mp (List.mem_map_of_mem hp)
    refine classify_fragment (hframes p hp) (offset_lt_of_check (hcut.checked _ hmem)) ?_
    refine (more_or_behind hcut.tiles hcut.several _ hmem).imp_right fun hstart => ?_
    rw [Fragment.start] at hstart
    omega
  · obtain ⟨first, rest, hfirst, hzero⟩ := hcut.tiles.head
    have hwhole : Whole (.ofVersion header.version)
        ⟨header.source, header.destination, header.protocol, id⟩ fragments := by
      refine ⟨hcut.tiles, fun f hf => ?_, hcut.checked, hcut.few⟩
      rw [Fragment.key, hcut.headed f hf, hid f hf]
    have hdistinct : ([((⟨header.source, header.destination, header.protocol, id⟩ : FragmentKey),
        fragments)].map Prod.fst).Nodup :=
      List.pairwise_singleton _ _
    have harrivals : ((passages.map fun p => (p.fragment, p.arrival)).map Prod.fst).Perm
        ([((⟨header.source, header.destination, header.protocol, id⟩ : FragmentKey),
          fragments)].flatMap Prod.snd) := by
      simpa [Function.comp_def] using hall
    have hyields := Reassembly.yields_perm hdistinct (List.forall_mem_singleton.mpr hwhole)
      harrivals
    have hdatagram := hcut.tiles.datagramOf_eq (hfirst ▸ List.mem_cons_self ..) hzero
    simp only [List.filterMap_cons, hdatagram, List.filterMap_nil] at hyields
    refine ⟨_, List.perm_singleton.mp hyields, fun frame other hframe hother hoffset htime => ?_⟩
    have hstart : other.start = 0 := by rw [Fragment.start, hoffset]
    obtain rfl := hcut.tiles.eq_of_start hother (hfirst ▸ List.mem_cons_self ..)
      (hstart.trans hzero.symm)
    rw [classify_whole hframe hplain, htime, hcut.payload, hcut.headed other hother]

/-! ### Options cut in two -/

namespace SplitOptions

/-- A stub resolver that asks a server; its datagram begins with destination options. -/
def route : Route IPv6 := ⟨1, 53, 60⟩

/-- Destination options, and behind them a DNS message without questions over UDP. -/
def part : Octets :=
  [17, 1, 1, 12, 0, 0, 0, 0, 0, 0, 0, 0, 0, 0, 0, 0] ++
    ([0x9C, 0x40, 0, 53, 0, 20, 0, 0] ++ [0, 1, 1, 0, 0, 0, 0, 0, 0, 0, 0, 0])

/-- A fragment of it. -/
def fragment (offset : Nat) (more : Bool) (payload : Octets) : Fragment :=
  ⟨route.v6, 7, offset, more, payload, some default⟩

/-- The options are in two fragments, and so is the UDP datagram. -/
def fragments : List Fragment :=
  [fragment 0 true (part.take 8), fragment 1 true ((part.drop 8).take 16),
    fragment 3 false (part.drop 24)]

/-- Hop-by-hop options in front of the fragment header. -/
def front : List Extension := [⟨0, 0, [1, 4, 0, 0, 0, 0], rfl, rfl⟩]

/-- Header fields that are not read. -/
def fields : IPv6Fields := ⟨0, (0, 0, 0), 64⟩

/-- A packet in a tagged frame with padding. -/
def frame (packet : Octets) : Frame :=
  ⟨List.replicate 12 2 ++ (tagOctets [⟨0x8100, 20, rfl⟩] ++ (Octets.ofWord16 0x86DD ++
    (packet ++ [0, 0, 0, 0]))), some default⟩

/-- A fragment in its frame. -/
def passage (f : Fragment) (arrival : Instant) : Passage :=
  ⟨f, frame (fields.packet { route with protocol := firstOf front fragmentProtocol }
    (chainOctets front fragmentProtocol ++
      (fragmentOctets route.protocol 0 0 f.id f.offset f.more ++ f.payload))), arrival⟩

/-- The last fragment arrives first. -/
def passages : List Passage :=
  [passage (fragment 3 false (part.drop 24)) 1, passage (fragment 0 true (part.take 8)) 2,
    passage (fragment 1 true ((part.drop 8).take 16)) 3]

/-- All of the datagram in one frame. -/
def whole : Frame :=
  frame (fields.packet { route with protocol := firstOf front route.protocol }
    (chainOctets front route.protocol ++ part))

theorem cut_fragments : Cut route.v6 part fragments where
  tiles := .before rfl rfl (by decide) (.before rfl rfl (by decide) (.last rfl rfl))
  several := by decide
  payload := rfl
  headed := by decide
  marked := ⟨7, by decide⟩
  checked := by decide
  few := by decide

theorem not_leadsToFragment : ¬LeadsToFragment route.protocol part := by
  rw [leadsToFragment_iff]
  rintro ⟨chain, hwalk, hfragment⟩
  have hend : extensionChain route.protocol part = .ok ⟨17, 16, none⟩ := by
    cbv
  rw [hend] at hwalk
  obtain rfl := Except.ok.inj hwalk
  exact hfragment rfl

theorem frame_passage {f : Fragment} (arrival : Instant) (hheader : f.header = route.v6)
    (htime : f.time = some default) (hlength : f.payload.length ≤ 16) :
    FragmentFrame .ethernet (passage f arrival).fragment (passage f arrival).frame := by
  refine ⟨htime.symm, _, [0, 0, 0, 0], .v6 fields route front 0 0 hheader ?_, ?_⟩
  · rw [List.length_append, List.length_append]
    show 8 + (8 + f.payload.length) < 65536
    omega
  · show Framed f.header.version _ _ _
    rw [hheader]
    exact .ethernet (List.replicate 12 2) rfl [⟨0x8100, 20, rfl⟩]

theorem frames_passages : ∀ p ∈ passages, FragmentFrame .ethernet p.fragment p.frame := by
  have hpassages : ∀ p ∈ passages, ∃ f ∈ fragments, ∃ arrival, p = passage f arrival := by
    simp [passages, fragments]
  have hfragments : ∀ f ∈ fragments, f.header = route.v6 ∧ f.time = some default ∧
      f.payload.length ≤ 16 := by
    decide
  intro p hp
  obtain ⟨f, hf, arrival, rfl⟩ := hpassages p hp
  obtain ⟨hheader, htime, hlength⟩ := hfragments f hf
  exact frame_passage arrival hheader htime hlength

theorem frame_whole : WholeFrame .ethernet route.v6 part whole :=
  ⟨_, [0, 0, 0, 0], .v6 fields route front rfl (by decide),
    .ethernet (List.replicate 12 2) rfl [⟨0x8100, 20, rfl⟩]⟩

/-- The DNS message is found behind the options, in fragments as in one frame. -/
theorem transparent_splitOptions :
    ∃ datagram, ((Reassembly.empty (.ofVersion .v6)).yields
        (passages.map fun p => (p.fragment, p.arrival))).map Prod.snd = [datagram] ∧
      classifyDatagram ⟨53, 4789⟩ datagram = classify .ethernet ⟨53, 4789⟩ whole ∧
      classify .ethernet ⟨53, 4789⟩ whole = .ok (.udp ⟨⟨.v6, .v6 1, .v6 53, 17⟩, 40000, 53,
        [0, 1, 1, 0, 0, 0, 0, 0, 0, 0, 0, 0], some default⟩) := by
  have hall : (passages.map Passage.fragment).Perm fragments := by
    decide
  obtain ⟨-, datagram, hyields, hclassify⟩ := fragmentation_transparent ⟨53, 4789⟩ cut_fragments
    (fun _ => not_leadsToFragment) hall frames_passages
  refine ⟨datagram, hyields, hclassify whole _ frame_whole (List.mem_cons_self ..) rfl rfl, ?_⟩
  cbv

end SplitOptions

end PassiveDns.Packet
