import SwitchML.Switch.Ingress
import SwitchML.Wire.Headers

/-!
# SwitchML wire format — ingress parser and deparser

`IngressParser` and `IngressDeparser` on the bits of a packet. A parser state of the
program is a function that takes the headers it extracts from the front of `rest`; a
packet that is too short for a header, or for which a state has no transition, is
rejected.

The metadata and the two data headers are those of `PassState`, so that the controls of
a pass run on a parsed packet unchanged; `IngressState` adds the validity of the
metadata headers, the other headers and the unparsed bits.

`parseEthernet_cases` says once what the parser accepts from outside (`Accepted`): a
packet that is not SwitchML's, a SwitchML-UDP packet, or a RoCEv2 packet; in each case
with the headers valid that make up the packet.
-/

namespace SwitchML.Wire

open BitCodec Codec MatchAction

-- ---------------------------------------------------------------------------
-- State
-- ---------------------------------------------------------------------------

/-- `header_t` but for the data headers, which belong to `PassState`, and the ICRC,
which is never valid. -/
structure HeaderStack where
  ethernet : Option Ethernet := none
  arp : Option Arp := none
  arpIpv4 : Option ArpIpv4 := none
  ipv4 : Option Ipv4 := none
  icmp : Option Icmp := none
  udp : Option Udp := none
  switchml : Option SwitchmlHeader := none
  ibBth : Option IbBth := none
  ibReth : Option IbReth := none
  ibImmediate : Option (BitVec 32) := none
  exponents : Option (BitVec 16) := none
deriving DecidableEq

/-- A packet inside an ingress pass. -/
structure IngressState where
  hdr : HeaderStack := {}
  pass : PassState
  ethHdrLenFieldHighOrderBits : BitVec 2 := 0b01
  mdValid : Bool := false
  rdmaMdValid : Bool := false
  udpMd : Option SwitchmlUdpMd := none
  exponentsMdValid : Bool := false
  -- what was not parsed
  rest : Bits

-- ---------------------------------------------------------------------------
-- IngressParser
-- ---------------------------------------------------------------------------

/-- `start`. -/
def start (cfg : SwitchConfig) (port : PortId) (bits : Bits) : IngressState where
  pass :=
    { md := {}
      ingressDropProbability := cfg.ingressDropProbability port
      egressDropProbability := cfg.egressDropProbability port
      ingressPort := port }
  rest := bits

def acceptNonSwitchml (w : IngressState) : IngressState :=
  { w with
    mdValid := true, ethHdrLenFieldHighOrderBits := 0b01
    pass := { w.pass with md := { packetType := .ignore } } }

def parseSwitchml (w : IngressState) : Option IngressState := do
  let (switchml, rest) ← switchmlH.decode w.rest
  let (d0, rest) ← dataH.decode rest
  let (d1, rest) ← dataH.decode rest
  let (exponents, rest) ← exponentsH.decode rest
  some { w with
    hdr := { w.hdr with switchml := some switchml, exponents := some exponents }
    mdValid := true, ethHdrLenFieldHighOrderBits := 0b01
    pass := { w.pass with
      md := { packetType := .consume 0 }
      d0 := d0, d1 := d1, d0Valid := true, d1Valid := true }
    rest := rest }

def parseIbPayload (w : IngressState) : Option IngressState := do
  let (d0, rest) ← dataH.decode w.rest
  let (d1, rest) ← dataH.decode rest
  some { w with
    pass := { w.pass with d0 := d0, d1 := d1, d0Valid := true, d1Valid := true }
    rest := rest }

def parseIbImmediate (w : IngressState) : Option IngressState := do
  let (immediate, rest) ← ibImmediateH.decode w.rest
  parseIbPayload { w with hdr := { w.hdr with ibImmediate := some immediate }, rest := rest }

def parseIbReth (w : IngressState) : Option IngressState := do
  let (reth, rest) ← ibRethH.decode w.rest
  parseIbPayload { w with hdr := { w.hdr with ibReth := some reth }, rest := rest }

def parseIbRethImmediate (w : IngressState) : Option IngressState := do
  let (reth, rest) ← ibRethH.decode w.rest
  let (immediate, rest) ← ibImmediateH.decode rest
  parseIbPayload { w with
    hdr := { w.hdr with ibReth := some reth, ibImmediate := some immediate }, rest := rest }

/-- The UC opcodes of `ib_opcode_t`. -/
def IbOpcode.ofBits (v : BitVec 8) : Option IbOpcode :=
  match v.toNat with
  | 0b00100000 => some .sendFirst
  | 0b00100001 => some .sendMiddle
  | 0b00100010 => some .sendLast
  | 0b00100011 => some .sendLastImmediate
  | 0b00100100 => some .sendOnly
  | 0b00100101 => some .sendOnlyImmediate
  | 0b00100110 => some .rdmaWriteFirst
  | 0b00100111 => some .rdmaWriteMiddle
  | 0b00101000 => some .rdmaWriteLast
  | 0b00101001 => some .rdmaWriteLastImmediate
  | 0b00101010 => some .rdmaWriteOnly
  | 0b00101011 => some .rdmaWriteOnlyImmediate
  | _ => none

/-- `parse_ib_bth`: assume that this is a SwitchML packet; the receive stage takes it
back if the queue pair does not match. -/
def parseIbBth (w : IngressState) : Option IngressState := do
  let (bth, rest) ← ibBthH.decode w.rest
  let w := { w with
    hdr := { w.hdr with ibBth := some bth }
    mdValid := true, ethHdrLenFieldHighOrderBits := 0b01
    rdmaMdValid := true, exponentsMdValid := true
    pass := { w.pass with
      md := { packetType := .consume 0, ibSolicited := bth.se }
      rdmaMd := {}, exponents := {} }
    rest := rest }
  match IbOpcode.ofBits bth.opcode with
  | some .sendFirst | some .sendMiddle | some .sendLast | some .sendOnly => parseIbPayload w
  | some .sendLastImmediate | some .sendOnlyImmediate => parseIbImmediate w
  | some .rdmaWriteFirst | some .rdmaWriteOnly => parseIbReth w
  | some .rdmaWriteMiddle | some .rdmaWriteLast => parseIbPayload w
  | some .rdmaWriteLastImmediate => parseIbImmediate w
  | some .rdmaWriteOnlyImmediate => parseIbRethImmediate w
  | none => some w

def udpPortRoceV2 : BitVec 16 := 4791
def udpPortSwitchmlBase : BitVec 16 := 0xbee0
def udpPortSwitchmlMask : BitVec 16 := 0xfff0

def parseUdp (w : IngressState) : Option IngressState := do
  let (udp, rest) ← udpH.decode w.rest
  let w := { w with hdr := { w.hdr with udp := some udp }, rest := rest }
  if udp.dstPort = udpPortRoceV2 then parseIbBth w
  else if KeyField.masked udpPortSwitchmlBase udpPortSwitchmlMask udp.dstPort then
    parseSwitchml w
  else some (acceptNonSwitchml w)

def parseIcmp (w : IngressState) : Option IngressState := do
  let (icmp, rest) ← icmpH.decode w.rest
  some (acceptNonSwitchml { w with hdr := { w.hdr with icmp := some icmp }, rest := rest })

def ipProtocolIcmp : BitVec 8 := 1
def ipProtocolUdp : BitVec 8 := 17

/-- `parse_ipv4`: only packets that are no fragments and have no options go on. The
result of the checksum verification is never read. -/
def parseIpv4 (w : IngressState) : Option IngressState := do
  let (ipv4, rest) ← ipv4H.decode w.rest
  let w := { w with hdr := { w.hdr with ipv4 := some ipv4 }, rest := rest }
  if ipv4.ihl = 5 ∧ ipv4.fragOffset = 0 ∧ ipv4.protocol = ipProtocolIcmp then parseIcmp w
  else if ipv4.ihl = 5 ∧ ipv4.fragOffset = 0 ∧ ipv4.protocol = ipProtocolUdp then parseUdp w
  else some (acceptNonSwitchml w)

def parseArpIpv4 (w : IngressState) : Option IngressState := do
  let (arpIpv4, rest) ← arpIpv4H.decode w.rest
  some (acceptNonSwitchml
    { w with hdr := { w.hdr with arpIpv4 := some arpIpv4 }, rest := rest })

def ethertypeIpv4 : BitVec 16 := 0x0800
def ethertypeArp : BitVec 16 := 0x0806

def parseArp (w : IngressState) : Option IngressState := do
  let (arp, rest) ← arpH.decode w.rest
  let w := { w with hdr := { w.hdr with arp := some arp }, rest := rest }
  if arp.hwType = 0x0001 ∧ arp.protoType = ethertypeIpv4 then parseArpIpv4 w
  else some (acceptNonSwitchml w)

def parseEthernet (w : IngressState) : Option IngressState := do
  let (ethernet, rest) ← ethernetH.decode w.rest
  let w := { w with hdr := { w.hdr with ethernet := some ethernet }, rest := rest }
  if ethernet.etherType = ethertypeArp then parseArp w
  else if ethernet.etherType = ethertypeIpv4 then parseIpv4 w
  else some (acceptNonSwitchml w)

/-- What `parse_recirculate` and the four states behind it extract: the metadata, by the
worker type. -/
def parseMetadata (w : IngressState) : Option IngressState := do
  let (md, rest) ← switchmlMdH.decode w.rest
  let w := { w with
    mdValid := true, ethHdrLenFieldHighOrderBits := md.ethHdrLenFieldHighOrderBits
    pass := { w.pass with md := md.md } }
  match md.md.workerType with
  | .roceV2 =>
    let (rdmaMd, rest) ← switchmlRdmaMdH.decode rest
    let (exponents, rest) ← switchmlExponentsMdH.decode rest
    some { w with
      rdmaMdValid := true, exponentsMdValid := true
      pass := { w.pass with rdmaMd := rdmaMd, exponents := exponents }
      rest := rest }
  | .switchmlUdp =>
    let (udpMd, rest) ← switchmlUdpMdH.decode rest
    let (exponents, rest) ← switchmlExponentsMdH.decode rest
    some { w with
      udpMd := some udpMd, exponentsMdValid := true
      pass := { w.pass with exponents := exponents }
      rest := rest }
  | .forwardOnly => none

def parseConsume (w : IngressState) : Option IngressState := do
  let (d0, rest) ← dataH.decode w.rest
  let (d1, rest) ← dataH.decode rest
  some { w with
    pass := { w.pass with d0 := d0, d1 := d1, d0Valid := true, d1Valid := true }
    rest := rest }

/-- `parse_harvest`: one of the two is filled in by the pass, the other invalidated. -/
def parseHarvest (w : IngressState) : IngressState :=
  { w with pass := { w.pass with d0Valid := true, d1Valid := true } }

def parseRecirculate (w : IngressState) : Option IngressState := do
  let w ← parseMetadata w
  match w.pass.md.packetType with
  | .consume _ => parseConsume w
  | _ => some (parseHarvest w)

/-- `IngressParser`; packets are never resubmitted. -/
def ingressParser (cfg : SwitchConfig) (port : PortId) (bits : Bits) : Option IngressState :=
  if isRecirculationPort port then parseRecirculate (start cfg port bits)
  else parseEthernet (start cfg port bits)

-- ---------------------------------------------------------------------------
-- IngressDeparser
-- ---------------------------------------------------------------------------

/-- The headers before the data headers, in the order of `header_t`. -/
def HeaderStack.front (hdr : HeaderStack) : Bits :=
  emit ethernetH hdr.ethernet ++ emit arpH hdr.arp ++ emit arpIpv4H hdr.arpIpv4 ++
  emit ipv4H hdr.ipv4 ++ emit icmpH hdr.icmp ++ emit udpH hdr.udp ++
  emit switchmlH hdr.switchml ++ emit ibBthH hdr.ibBth ++ emit ibRethH hdr.ibReth ++
  emit ibImmediateH hdr.ibImmediate

/-- The valid data headers. -/
def dataHeaders (st : PassState) : Bits :=
  (if st.d0Valid then dataH.encode st.d0 else []) ++
  (if st.d1Valid then dataH.encode st.d1 else [])

/-- The bridged metadata, in the order of the deparser. -/
def IngressState.metadata (w : IngressState) : Bits :=
  (if w.mdValid then switchmlMdH.encode ⟨w.pass.md, w.ethHdrLenFieldHighOrderBits⟩ else []) ++
  (if w.rdmaMdValid then switchmlRdmaMdH.encode w.pass.rdmaMd else []) ++
  emit switchmlUdpMdH w.udpMd ++
  (if w.exponentsMdValid then switchmlExponentsMdH.encode w.pass.exponents else [])

/-- The packet behind its metadata. -/
def IngressState.wire (w : IngressState) : Bits :=
  w.hdr.front ++ dataHeaders w.pass ++ emit exponentsH w.hdr.exponents ++ w.rest

/-- `IngressDeparser`; the checksum is never updated in ingress. -/
def ingressDeparser (w : IngressState) : Bits := w.metadata ++ w.wire

/-! ## What the parser accepts from a recirculation port -/

/-- The metadata of a packet that comes back, by the worker type. -/
theorem parseMetadata_cases {w w' : IngressState} (h : parseMetadata w = some w') :
    ∃ md bits exponents rest, switchmlMdH.decode w.rest = some (md, bits) ∧
      ((md.md.workerType = .roceV2 ∧ ∃ rdmaMd, w' = { w with
        mdValid := true, ethHdrLenFieldHighOrderBits := md.ethHdrLenFieldHighOrderBits
        rdmaMdValid := true, exponentsMdValid := true
        pass := { w.pass with md := md.md, rdmaMd := rdmaMd, exponents := exponents }
        rest := rest }) ∨
      (md.md.workerType = .switchmlUdp ∧ ∃ udpMd, w' = { w with
        mdValid := true, ethHdrLenFieldHighOrderBits := md.ethHdrLenFieldHighOrderBits
        udpMd := some udpMd, exponentsMdValid := true
        pass := { w.pass with md := md.md, exponents := exponents }
        rest := rest })) := by
  simp only [parseMetadata, Option.bind_eq_bind, Option.bind_eq_some_iff] at h
  obtain ⟨⟨md, bits⟩, hMd, h⟩ := h
  cases hWorker : md.md.workerType with
  | forwardOnly => simp [hWorker] at h
  | roceV2 =>
    simp only [hWorker, Option.bind_eq_some_iff, Option.some.injEq] at h
    obtain ⟨⟨rdmaMd, _⟩, -, ⟨exponents, rest⟩, -, rfl⟩ := h
    exact ⟨md, bits, exponents, rest, hMd, .inl ⟨hWorker, rdmaMd, rfl⟩⟩
  | switchmlUdp =>
    simp only [hWorker, Option.bind_eq_some_iff, Option.some.injEq] at h
    obtain ⟨⟨udpMd, _⟩, -, ⟨exponents, rest⟩, -, rfl⟩ := h
    exact ⟨md, bits, exponents, rest, hMd, .inr ⟨hWorker, udpMd, rfl⟩⟩

/-- Behind the metadata only the data headers are read. -/
theorem parseRecirculate_cases {w w' : IngressState} (h : parseRecirculate w = some w') :
    ∃ w₁ d0 d1 rest, parseMetadata w = some w₁ ∧ w' = { w₁ with
      pass := { w₁.pass with d0 := d0, d1 := d1, d0Valid := true, d1Valid := true }
      rest := rest } := by
  simp only [parseRecirculate, Option.bind_eq_bind, Option.bind_eq_some_iff] at h
  obtain ⟨w₁, hMetadata, h⟩ := h
  split at h
  · simp only [parseConsume, Option.bind_eq_bind, Option.bind_eq_some_iff,
      Option.some.injEq] at h
    obtain ⟨⟨d0, _⟩, -, ⟨d1, rest⟩, -, rfl⟩ := h
    exact ⟨w₁, d0, d1, rest, hMetadata, rfl⟩
  · exact ⟨w₁, w₁.pass.d0, w₁.pass.d1, w₁.rest, hMetadata, (Option.some.inj h).symm⟩

/-! ## What the parser accepts from outside -/

/-- The opcodes with an immediate header. -/
def carriesImmediate : IbOpcode → Bool
  | .sendLastImmediate | .sendOnlyImmediate
  | .rdmaWriteLastImmediate | .rdmaWriteOnlyImmediate => true
  | _ => false

/-- The ends of a parse that started from `w` without any header. -/
inductive Accepted (w : IngressState) : IngressState → Prop
  | other (hdr : HeaderStack) (rest : Bits)
      (hEth : hdr.ethernet.isSome) (hUdp : ∀ udp ∈ hdr.udp, udp.dstPort ≠ udpPortRoceV2)
      (hBth : hdr.ibBth = none) (hSwitchml : hdr.switchml = none)
      (hExponents : hdr.exponents = none) (hBits : w.rest = hdr.front ++ rest) :
      Accepted w (acceptNonSwitchml { w with hdr := hdr, rest := rest })
  | switchml (ethernet : Ethernet) (ipv4 : Ipv4) (udp : Udp) (switchml : SwitchmlHeader)
      (exponents : BitVec 16) (d0 d1 : Data) (rest : Bits) (w' : IngressState)
      (hUdp : udp.dstPort ≠ udpPortRoceV2)
      (hEnd : w' = { w with
        hdr := {
          ethernet := some ethernet, ipv4 := some ipv4, udp := some udp
          switchml := some switchml, exponents := some exponents }
        mdValid := true, ethHdrLenFieldHighOrderBits := 0b01
        pass := { w.pass with
          md := { packetType := .consume 0 }
          d0 := d0, d1 := d1, d0Valid := true, d1Valid := true }
        rest := rest })
      (hBits : w.rest = w'.wire) :
      Accepted w w'
  | roce (ethernet : Ethernet) (ipv4 : Ipv4) (udp : Udp) (bth : IbBth) (reth : Option IbReth)
      (immediate : Option (BitVec 32)) (d0 d1 : Data) (hasData : Bool) (rest : Bits)
      (w' : IngressState)
      (hUdp : udp.dstPort = udpPortRoceV2)
      (hImmediate : immediate.isSome → (IbOpcode.ofBits bth.opcode).any carriesImmediate)
      (hEnd : w' = { w with
        hdr := {
          ethernet := some ethernet, ipv4 := some ipv4, udp := some udp
          ibBth := some bth, ibReth := reth, ibImmediate := immediate }
        mdValid := true, ethHdrLenFieldHighOrderBits := 0b01
        rdmaMdValid := true, exponentsMdValid := true
        pass := { w.pass with
          md := { packetType := .consume 0, ibSolicited := bth.se }
          rdmaMd := {}, exponents := {}
          d0 := d0, d1 := d1, d0Valid := hasData, d1Valid := hasData }
        rest := rest })
      (hBits : w.rest = w'.wire) :
      Accepted w w'

theorem parseIbPayload_cases {w w' : IngressState} (h : parseIbPayload w = some w') :
    ∃ d0 d1 rest, w.rest = dataH.encode d0 ++ (dataH.encode d1 ++ rest) ∧
      w' = { w with
        pass := { w.pass with d0 := d0, d1 := d1, d0Valid := true, d1Valid := true }
        rest := rest } := by
  obtain ⟨d0, bits, h0, h⟩ := dataH_exact.of_bind h
  obtain ⟨d1, rest, h1, h⟩ := dataH_exact.of_bind h
  exact ⟨d0, d1, rest, by rw [h0, h1], (Option.some.inj h).symm⟩

theorem parseIbBth_cases {w : IngressState} (hData : w.pass.d0Valid = false ∧
      w.pass.d1Valid = false) {ethernet : Ethernet} {ipv4 : Ipv4} {udp : Udp}
    (hUdp : udp.dstPort = udpPortRoceV2) {bits : Bits}
    (hBits : w.rest =
      ethernetH.encode ethernet ++ (ipv4H.encode ipv4 ++ (udpH.encode udp ++ bits)))
    {w' : IngressState}
    (h : parseIbBth { w with
      hdr := { ethernet := some ethernet, ipv4 := some ipv4, udp := some udp }
      rest := bits } = some w') : Accepted w w' := by
  obtain ⟨bth, rest, rfl, h⟩ := ibBthH_exact.of_bind h
  -- all opcodes but the unknown ones end in `parse_ib_payload`
  have hEnd : ∀ (reth : Option IbReth) (immediate : Option (BitVec 32)) (rest' : Bits),
      (immediate.isSome → (IbOpcode.ofBits bth.opcode).any carriesImmediate) →
      rest = emit ibRethH reth ++ (emit ibImmediateH immediate ++ rest') →
      parseIbPayload { w with
        hdr := {
          ethernet := some ethernet, ipv4 := some ipv4, udp := some udp
          ibBth := some bth, ibReth := reth, ibImmediate := immediate }
        mdValid := true, ethHdrLenFieldHighOrderBits := 0b01
        rdmaMdValid := true, exponentsMdValid := true
        pass := { w.pass with
          md := { packetType := .consume 0, ibSolicited := bth.se }
          rdmaMd := {}, exponents := {} }
        rest := rest' } = some w' → Accepted w w' := by
    intro reth immediate rest' hImmediate hRest h
    obtain ⟨d0, d1, rest'', hRest', hEnd⟩ := parseIbPayload_cases h
    refine .roce ethernet ipv4 udp bth reth immediate d0 d1 true rest'' w' hUdp hImmediate
      hEnd ?_
    subst hEnd hRest
    dsimp only at hRest'
    simp [hBits, hRest', IngressState.wire, HeaderStack.front, dataHeaders]
  cases hOpcode : IbOpcode.ofBits bth.opcode with
  | none =>
    simp only [hOpcode, Option.some.injEq] at h
    subst h
    refine .roce ethernet ipv4 udp bth none none w.pass.d0 w.pass.d1 false rest _ hUdp (by simp)
      ?_ ?_
    · simp [hData]
    · simp [hBits, IngressState.wire, HeaderStack.front, dataHeaders, hData]
  | some opcode =>
    simp only [hOpcode] at h hEnd
    cases opcode with
    | sendLastImmediate | sendOnlyImmediate | rdmaWriteLastImmediate =>
      obtain ⟨immediate, rest', rfl, h⟩ := (field_exact 32).of_bind h
      exact hEnd none (some immediate) rest' (fun _ => rfl) rfl h
    | rdmaWriteFirst | rdmaWriteOnly =>
      obtain ⟨reth, rest', rfl, h⟩ := ibRethH_exact.of_bind h
      exact hEnd (some reth) none rest' (by simp) rfl h
    | rdmaWriteOnlyImmediate =>
      obtain ⟨reth, rest', rfl, h⟩ := ibRethH_exact.of_bind h
      obtain ⟨immediate, rest'', rfl, h⟩ := (field_exact 32).of_bind h
      exact hEnd (some reth) (some immediate) rest'' (fun _ => rfl) rfl h
    | _ => exact hEnd none none rest (by simp) rfl h

theorem parseSwitchml_cases {w : IngressState} {ethernet : Ethernet} {ipv4 : Ipv4} {udp : Udp}
    (hUdp : udp.dstPort ≠ udpPortRoceV2) {bits : Bits}
    (hBits : w.rest =
      ethernetH.encode ethernet ++ (ipv4H.encode ipv4 ++ (udpH.encode udp ++ bits)))
    {w' : IngressState}
    (h : parseSwitchml { w with
      hdr := { ethernet := some ethernet, ipv4 := some ipv4, udp := some udp }
      rest := bits } = some w') : Accepted w w' := by
  obtain ⟨switchml, rest, rfl, h⟩ := switchmlH_exact.of_bind h
  obtain ⟨d0, rest, rfl, h⟩ := dataH_exact.of_bind h
  obtain ⟨d1, rest, rfl, h⟩ := dataH_exact.of_bind h
  obtain ⟨exponents, rest, rfl, h⟩ := (field_exact 16).of_bind h
  obtain rfl := Option.some.inj h
  refine .switchml ethernet ipv4 udp switchml exponents d0 d1 rest _ hUdp rfl ?_
  simp [hBits, IngressState.wire, HeaderStack.front, dataHeaders, exponentsH]

theorem parseUdp_cases {w : IngressState} (hData : w.pass.d0Valid = false ∧
      w.pass.d1Valid = false) {ethernet : Ethernet} {ipv4 : Ipv4} {bits : Bits}
    (hBits : w.rest = ethernetH.encode ethernet ++ (ipv4H.encode ipv4 ++ bits))
    {w' : IngressState}
    (h : parseUdp { w with
      hdr := { ethernet := some ethernet, ipv4 := some ipv4 }
      rest := bits } = some w') : Accepted w w' := by
  obtain ⟨udp, rest, rfl, h⟩ := udpH_exact.of_bind h
  dsimp only at h
  split at h
  · next hUdp => exact parseIbBth_cases hData hUdp hBits h
  next hUdp =>
  split at h
  · exact parseSwitchml_cases hUdp hBits h
  obtain rfl := Option.some.inj h
  refine .other { ethernet := some ethernet, ipv4 := some ipv4, udp := some udp } rest rfl
    (by simpa using hUdp) rfl rfl rfl ?_
  simp [hBits, HeaderStack.front]

theorem parseIpv4_cases {w : IngressState} (hData : w.pass.d0Valid = false ∧
      w.pass.d1Valid = false) {ethernet : Ethernet} {bits : Bits}
    (hBits : w.rest = ethernetH.encode ethernet ++ bits) {w' : IngressState}
    (h : parseIpv4 { w with hdr := { ethernet := some ethernet }, rest := bits } = some w') :
    Accepted w w' := by
  obtain ⟨ipv4, rest, rfl, h⟩ := ipv4H_exact.of_bind h
  dsimp only at h
  split at h
  · obtain ⟨icmp, rest, rfl, h⟩ := icmpH_exact.of_bind h
    obtain rfl := Option.some.inj h
    refine .other { ethernet := some ethernet, ipv4 := some ipv4, icmp := some icmp } rest rfl
      (by simp) rfl rfl rfl ?_
    simp [hBits, HeaderStack.front]
  split at h
  · exact parseUdp_cases hData hBits h
  obtain rfl := Option.some.inj h
  refine .other { ethernet := some ethernet, ipv4 := some ipv4 } rest rfl (by simp) rfl rfl rfl
    ?_
  simp [hBits, HeaderStack.front]

theorem parseArp_cases {w : IngressState} {ethernet : Ethernet} {bits : Bits}
    (hBits : w.rest = ethernetH.encode ethernet ++ bits) {w' : IngressState}
    (h : parseArp { w with hdr := { ethernet := some ethernet }, rest := bits } = some w') :
    Accepted w w' := by
  obtain ⟨arp, rest, rfl, h⟩ := arpH_exact.of_bind h
  dsimp only at h
  split at h
  · obtain ⟨arpIpv4, rest, rfl, h⟩ := arpIpv4H_exact.of_bind h
    obtain rfl := Option.some.inj h
    refine .other { ethernet := some ethernet, arp := some arp, arpIpv4 := some arpIpv4 } rest
      rfl (by simp) rfl rfl rfl ?_
    simp [hBits, HeaderStack.front]
  obtain rfl := Option.some.inj h
  refine .other { ethernet := some ethernet, arp := some arp } rest rfl (by simp) rfl rfl rfl ?_
  simp [hBits, HeaderStack.front]

/-- **What the parser accepts from outside.** -/
theorem parseEthernet_cases {w w' : IngressState} (hHdr : w.hdr = {})
    (hData : w.pass.d0Valid = false ∧ w.pass.d1Valid = false) (h : parseEthernet w = some w') :
    Accepted w w' := by
  obtain ⟨ethernet, rest, hBits, h⟩ := ethernetH_exact.of_bind h
  rw [hHdr] at h
  dsimp only at h
  split at h
  · exact parseArp_cases hBits h
  split at h
  · exact parseIpv4_cases hData hBits h
  obtain rfl := Option.some.inj h
  refine .other { ethernet := some ethernet } rest rfl (by simp) rfl rfl rfl ?_
  simp [hBits, HeaderStack.front]

theorem ingressParser_cases {cfg : SwitchConfig} {port : PortId} {bits : Bits}
    {w : IngressState} (hPort : isRecirculationPort port = false)
    (h : ingressParser cfg port bits = some w) : Accepted (start cfg port bits) w := by
  rw [ingressParser, hPort] at h
  exact parseEthernet_cases rfl ⟨rfl, rfl⟩ h

end SwitchML.Wire
