import SwitchML.Wire.Egress

/-!
# SwitchML wire format — SwitchML-UDP replies

The replies that `SetDestinationAddress` makes of the packets that ingress has harvested, as the
workers receive them.

A reply is to have the format of a request. `reply_reads_back_iff` compares the two:
the reply is read with the parser state of a request (`parseSwitchml`) and the field
extraction of the receive stage (`setBitmap`). All fields of the SwitchML header, the
pool index with its set, and the length fields are right, but

* egress never parses the payload, so that the exponents stand in front of it, while a
  request has them behind its data;
* the two exponents are joined in the order opposite to the one in which a request is
  taken apart.

The reply is read back as it was meant only if both exponents are equal and every byte
of the payload is equal to them.
-/

namespace SwitchML.Wire

open BitCodec Codec MatchAction

-- ---------------------------------------------------------------------------
-- What a reply looks like
-- ---------------------------------------------------------------------------

/-- The pool index of a SwitchML header: the set, an unused bit, the slot. -/
def wirePoolIndex (p : PoolIndex) : BitVec 16 :=
  p.extractLsb' 0 1 ++ (0#2 ++ p.extractLsb' 1 14).extractLsb' 0 15

/-- The SwitchML header of a reply. -/
def replyHeader (md : SwitchmlMd) (udpMd : SwitchmlUdpMd) : SwitchmlHeader where
  msgType := udpMd.msgType
  opcode := udpMd.opcode
  tsi := udpMd.tsi
  poolIndex := wirePoolIndex md.poolIndex

/-- The bits of a reply behind the UDP header. -/
def replyBody (md : SwitchmlMd) (udpMd : SwitchmlUdpMd) (exponents : ExponentsMd)
    (d0 d1 : Data) : Bits :=
  switchmlH.encode (replyHeader md udpMd) ++ (exponentsH.encode (exponents.e1 ++ exponents.e0) ++
    (dataH.encode d0 ++ dataH.encode d1))

/-- What ingress leaves of a harvested 256-byte packet. -/
def harvestedUdp (md : BridgedMd) (udpMd : SwitchmlUdpMd) (exponents : ExponentsMd)
    (d0 d1 : Data) : Bits :=
  switchmlMdH.encode md ++ (switchmlUdpMdH.encode udpMd ++
    (switchmlExponentsMdH.encode exponents ++ (dataH.encode d0 ++ dataH.encode d1)))

theorem egressParser_harvestedUdp {md : BridgedMd} (udpMd : SwitchmlUdpMd)
    (exponents : ExponentsMd) (d0 d1 : Data) (hWorker : md.md.workerType = .switchmlUdp)
    (hType : md.md.packetType = .broadcast ∨ md.md.packetType = .retransmit) :
    egressParser (harvestedUdp md udpMd exponents d0 d1) =
      some { md := md.md, ethHdrLenFieldHighOrderBits := md.ethHdrLenFieldHighOrderBits
             udpMd := udpMd, exponents := exponents
             rest := dataH.encode d0 ++ dataH.encode d1 } := by
  rcases hType with hType | hType <;> simp [egressParser, harvestedUdp, hWorker, hType]

theorem setDestinationAddress_reply (cfg : UdpEgressConfig) (st : EgressState)
    (hHdr : st.hdr = {}) (hKnown : (cfg.setDstAddr st.md.workerId).isSome = true) :
    ∃ ethernet ipv4 udp, ipv4.totalLen = BitVec.ofNat 16 ipv4Length ∧
      udp.length = BitVec.ofNat 16 udpLength ∧
      setDestinationAddress cfg st =
        { st with
          updateIpv4Checksum := true
          hdr := {
            ethernet := some ethernet, ipv4 := some ipv4, udp := some udp
            switchml := some (replyHeader st.md st.udpMd)
            exponents := some (st.exponents.e1 ++ st.exponents.e0) } } := by
  obtain ⟨⟨ethDstAddr, ipDstAddr⟩, hDst⟩ := Option.isSome_iff_exists.mp hKnown
  have hSet : setDestinationAddress cfg st =
      setDstAddrForSwitchmlUdp ethDstAddr ipDstAddr (setSwitchMacAndIp cfg st) := by
    simp [setDestinationAddress, setSwitchMacAndIp, hDst]
  rw [hSet, setDstAddrForSwitchmlUdp, setSwitchMacAndIp, hHdr]
  simp only [Option.map_some]
  refine ⟨_, _, _, ?_, ?_, rfl⟩ <;> rfl

theorem egressDeparser_reply {st : EgressState} {ethernet : Ethernet} {ipv4 : Ipv4} {udp : Udp}
    {switchml : SwitchmlHeader} {exponents : BitVec 16}
    (hHdr : st.hdr = {
      ethernet := some ethernet, ipv4 := some ipv4, udp := some udp
      switchml := some switchml, exponents := some exponents })
    (hUpdate : st.updateIpv4Checksum = true) (hMd : st.mdValid = false)
    (hDebug : st.switchmlDebug = none) :
    egressDeparser st =
      ethernetH.encode ethernet ++ (ipv4H.encode { ipv4 with hdrChecksum := ipv4Checksum ipv4 } ++
        (udpH.encode udp ++ (switchmlH.encode switchml ++
          (exponentsH.encode exponents ++ st.rest)))) := by
  simp [egressDeparser, HeaderStack.front, hHdr, hUpdate, hMd, hDebug]

/-- The egress pipeline sends a reply to every worker it knows. -/
theorem egressPass_udp (cfg : EgressConfig) (undefined : BitVec 8)
    (intr : EgressIntrinsicMetadata) (md : BridgedMd) (udpMd : SwitchmlUdpMd)
    (exponents : ExponentsMd) (d0 d1 : Data) (hWorker : md.md.workerType = .switchmlUdp)
    (hType : md.md.packetType = .broadcast ∨ md.md.packetType = .retransmit)
    (hKept : md.md.simulateEgressDrop = false)
    (hKnown : (cfg.udp.setDstAddr (replyWorker md.md intr.egressRid)).isSome = true) :
    ∃ ethernet ipv4 udp, ipv4.totalLen = BitVec.ofNat 16 ipv4Length ∧
      udp.length = BitVec.ofNat 16 udpLength ∧
      egressPass cfg undefined intr (harvestedUdp md udpMd exponents d0 d1) =
        some (ethernetH.encode ethernet ++ (ipv4H.encode ipv4 ++ (udpH.encode udp ++
          replyBody md.md udpMd exponents d0 d1))) := by
  have hPass := egressPass_reply cfg undefined intr
    (egressParser_harvestedUdp udpMd exponents d0 d1 hWorker hType) hType hKept
  have hUdp : md.md.workerType ≠ .roceV2 := by simp [hWorker]
  dsimp only at hPass
  rw [if_neg hUdp] at hPass
  obtain ⟨ethernet, ipv4, udp, hTotal, hLength, hSet⟩ := setDestinationAddress_reply cfg.udp
    { md := { md.md with workerId := replyWorker md.md intr.egressRid }
      ethHdrLenFieldHighOrderBits := md.ethHdrLenFieldHighOrderBits, udpMd := udpMd
      exponents := exponents, rest := dataH.encode d0 ++ dataH.encode d1 } rfl hKnown
  refine ⟨ethernet, { ipv4 with hdrChecksum := ipv4Checksum ipv4 }, udp, hTotal, hLength, ?_⟩
  rw [hPass, hSet, if_neg Bool.false_ne_true, egressDeparser_reply rfl rfl rfl rfl]
  rfl

-- ---------------------------------------------------------------------------
-- Reading a reply as a request
-- ---------------------------------------------------------------------------

/-- A request finds the slot and the set where a reply puts them. -/
theorem wirePoolIndex_slot_set (p : PoolIndex) :
    (wirePoolIndex p).extractLsb' 0 14 ++ (wirePoolIndex p).extractLsb' 15 1 = p := by
  have hSet : (wirePoolIndex p).extractLsb' 15 1 = p.extractLsb' 0 1 :=
    BitVec.extractLsb'_append_eq_left
  have hSlot := calc
    (wirePoolIndex p).extractLsb' 0 14
    _ = ((0#2 ++ p.extractLsb' 1 14).extractLsb' 0 15).extractLsb' 0 14 :=
      BitVec.extractLsb'_append_eq_of_add_le (by decide)
    _ = (0#2 ++ p.extractLsb' 1 14).extractLsb' 0 14 := by
      apply BitVec.eq_of_getLsbD_eq
      intro i hi
      simp [hi]
    _ = p.extractLsb' 1 14 := BitVec.extractLsb'_append_eq_right
  rw [hSlot, hSet, BitVec.extractLsb'_append_extractLsb'_eq_extractLsb' (by rfl)]
  exact BitVec.extractLsb'_eq_self

/-- What the parser state of a request and the receive stage make of the bits behind a
UDP header. -/
def readRequest (args : ReceiveArgs) (ethernet : Ethernet) (ipv4 : Ipv4) (udp : Udp)
    (bits : Bits) : Option IngressState :=
  (parseSwitchml
    { hdr := { ethernet := some ethernet, ipv4 := some ipv4, udp := some udp }
      pass := { md := {}, ingressPort := 0 }
      rest := bits }).map (setBitmap args)

/-- The packet read is the one egress was given, and there is nothing behind it. -/
def SameRequest (md : SwitchmlMd) (udpMd : SwitchmlUdpMd) (exponents : ExponentsMd)
    (d0 d1 : Data) (w : IngressState) : Prop :=
  (∃ udp, w.udpMd = some udp ∧ udp.msgType = udpMd.msgType ∧ udp.opcode = udpMd.opcode ∧
    udp.tsi = udpMd.tsi) ∧
  w.pass.md.poolIndex = md.poolIndex ∧ w.pass.exponents = exponents ∧
  w.pass.d0 = d0 ∧ w.pass.d1 = d1 ∧ w.rest = []

/-- The bits of a reply have the format of a request with the values egress was given,
and the length fields count the bytes there are. -/
def ReadsBack (args : ReceiveArgs) (md : SwitchmlMd) (udpMd : SwitchmlUdpMd)
    (exponents : ExponentsMd) (d0 d1 : Data) (bits : Bits) : Prop :=
  ∃ ethernet ipv4 udp body,
    bits = ethernetH.encode ethernet ++ (ipv4H.encode ipv4 ++ (udpH.encode udp ++ body)) ∧
    (ipv4H.encode ipv4 ++ (udpH.encode udp ++ body)).length = 8 * ipv4.totalLen.toNat ∧
    (udpH.encode udp ++ body).length = 8 * udp.length.toNat ∧
    ∃ w, readRequest args ethernet ipv4 udp body = some w ∧
      SameRequest md udpMd exponents d0 d1 w

/-- The bits a request has behind its SwitchML header. -/
def requestBits (exponents : ExponentsMd) (d0 d1 : Data) : Bits :=
  dataH.encode d0 ++ (dataH.encode d1 ++ exponentsH.encode (exponents.e0 ++ exponents.e1))

/-- The bits a reply has there. -/
def replyBits (exponents : ExponentsMd) (d0 d1 : Data) : Bits :=
  exponentsH.encode (exponents.e1 ++ exponents.e0) ++ (dataH.encode d0 ++ dataH.encode d1)

theorem length_replyBody (md : SwitchmlMd) (udpMd : SwitchmlUdpMd) (exponents : ExponentsMd)
    (d0 d1 : Data) (udp : Udp) :
    (udpH.encode udp ++ replyBody md udpMd exponents d0 d1).length = 8 * udpLength := by
  simp [replyBody, udpLength]

/-- Behind the header of a reply, only the bits of a request are read as one. -/
theorem sameRequest_iff (args : ReceiveArgs) (ethernet : Ethernet) (ipv4 : Ipv4) (udp : Udp)
    (md : SwitchmlMd) (udpMd : SwitchmlUdpMd) (exponents : ExponentsMd) (d0 d1 : Data)
    (bits : Bits) :
    (∃ w, readRequest args ethernet ipv4 udp
        (switchmlH.encode (replyHeader md udpMd) ++ bits) = some w ∧
      SameRequest md udpMd exponents d0 d1 w) ↔ bits = requestBits exponents d0 d1 := by
  constructor
  · rintro ⟨w, hRead, hSame⟩
    obtain ⟨w', hParse, rfl⟩ := Option.map_eq_some_iff.mp hRead
    simp only [parseSwitchml, decode_encode, Option.bind_eq_bind, Option.bind_some] at hParse
    obtain ⟨d0', rest0, hRest0, hParse⟩ := dataH_exact.of_bind hParse
    obtain ⟨d1', rest1, hRest1, hParse⟩ := dataH_exact.of_bind hParse
    obtain ⟨e, rest, hRest, hParse⟩ := (field_exact 16).of_bind hParse
    obtain rfl := Option.some.inj hParse
    obtain ⟨-, -, rfl, rfl, rfl, rfl⟩ := hSame
    have hPair : e.extractLsb' 8 8 ++ e.extractLsb' 0 8 = e := by
      rw [BitVec.extractLsb'_append_extractLsb'_eq_extractLsb' (by rfl)]
      exact BitVec.extractLsb'_eq_self
    dsimp only at hRest1 hRest
    rw [hRest0, hRest1, hRest]
    simp [requestBits, setBitmap, exponentsH, hPair]
  · rintro rfl
    have hHigh : (exponents.e0 ++ exponents.e1).extractLsb' 8 8 = exponents.e0 :=
      BitVec.extractLsb'_append_eq_left
    have hLow : (exponents.e0 ++ exponents.e1).extractLsb' 0 8 = exponents.e1 :=
      BitVec.extractLsb'_append_eq_right
    simp [readRequest, parseSwitchml, requestBits, SameRequest, setBitmap, replyHeader,
      wirePoolIndex_slot_set, hHigh, hLow]

/-- A significand all of whose bytes are equal. -/
def fourTimes (e : BitVec 8) : BitVec 32 := e ++ e ++ (e ++ e)

/-- The exponents are equal, and so are all the bytes of the payload. -/
def Uniform (exponents : ExponentsMd) (d0 d1 : Data) : Prop :=
  exponents.e0 = exponents.e1 ∧
    ∀ i, d0 i = fourTimes exponents.e0 ∧ d1 i = fourTimes exponents.e0

/-- Uniform data are copies of the bits of two equal exponents. -/
theorem encode_dataH_uniform (e : BitVec 8) :
    dataH.encode (fun _ => fourTimes e) =
      (List.replicate 64 (exponentsH.encode (e ++ e))).flatten := by
  have hWord : (field 32).encode (fourTimes e) =
      (List.replicate 2 (exponentsH.encode (e ++ e))).flatten := by
    have hHalves : (field 32).encode (fourTimes e) = _ := encode_field_append (e ++ e) (e ++ e)
    simpa [List.replicate_succ, exponentsH] using hHalves
  rw [dataH, encode_vector_const, hWord, flatten_replicate_flatten]

/-- The reply and the request agree only on uniform packets. -/
theorem replyBits_eq_requestBits_iff (exponents : ExponentsMd) (d0 d1 : Data) :
    replyBits exponents d0 d1 = requestBits exponents d0 d1 ↔ Uniform exponents d0 d1 := by
  constructor
  · intro h
    have hShift : exponentsH.encode (exponents.e1 ++ exponents.e0) ++
        (dataH.encode d0 ++ dataH.encode d1) = (dataH.encode d0 ++ dataH.encode d1) ++
        exponentsH.encode (exponents.e0 ++ exponents.e1) := by
      rw [List.append_assoc]
      exact h
    obtain ⟨hData, hPair⟩ := conjugate_blocks (k := 128) (by simp)
      (by simp) hShift
    have hEq : exponents.e0 = exponents.e1 := by
      have hWord := exponentsH.encode_injective hPair
      have hLow := congrArg (BitVec.extractLsb' 0 8) hWord
      exact BitVec.extractLsb'_append_eq_right.symm.trans (hLow.trans
        BitVec.extractLsb'_append_eq_right)
    rw [← hEq, List.replicate_add 64 64, List.flatten_append, ← encode_dataH_uniform] at hData
    obtain ⟨h0, h1⟩ := List.append_inj hData (by simp)
    obtain rfl := dataH.encode_injective h0
    obtain rfl := dataH.encode_injective h1
    exact ⟨hEq, fun _ => ⟨rfl, rfl⟩⟩
  · rintro ⟨hEq, hData⟩
    obtain rfl : d0 = fun _ => fourTimes exponents.e0 := funext fun i => (hData i).1
    obtain rfl : d1 = fun _ => fourTimes exponents.e0 := funext fun i => (hData i).2
    rw [replyBits, requestBits, ← hEq, encode_dataH_uniform, ← List.append_assoc,
      append_flatten_replicate, List.append_assoc, append_flatten_replicate]

/-- A reply is read back exactly if its bits are those of a request. -/
theorem readsBack_reply_iff (args : ReceiveArgs) (md : SwitchmlMd) (udpMd : SwitchmlUdpMd)
    (exponents : ExponentsMd) (d0 d1 : Data) {ethernet : Ethernet} {ipv4 : Ipv4} {udp : Udp}
    (hTotal : ipv4.totalLen = BitVec.ofNat 16 ipv4Length)
    (hLength : udp.length = BitVec.ofNat 16 udpLength) :
    ReadsBack args md udpMd exponents d0 d1 (ethernetH.encode ethernet ++ (ipv4H.encode ipv4 ++
      (udpH.encode udp ++ replyBody md udpMd exponents d0 d1))) ↔ Uniform exponents d0 d1 := by
  rw [← replyBits_eq_requestBits_iff]
  constructor
  · rintro ⟨ethernet', ipv4', udp', body, hBits, -, -, hRead⟩
    -- the headers in front have fixed widths, so the bodies are the same
    obtain ⟨-, hBits⟩ := List.append_inj hBits (by simp)
    obtain ⟨-, hBits⟩ := List.append_inj hBits (by simp)
    obtain ⟨-, rfl⟩ := List.append_inj hBits (by simp)
    exact (sameRequest_iff args ethernet' ipv4' udp' md udpMd exponents d0 d1 _).mp hRead
  · intro hSame
    have hUdp := length_replyBody md udpMd exponents d0 d1 udp
    refine ⟨ethernet, ipv4, udp, _, rfl, ?_, ?_, ?_⟩
    · rw [List.length_append, hUdp, length_encode, hTotal]
      simp [ipv4Length, udpLength]
    · rw [hUdp, hLength]
      simp [udpLength]
    · exact (sameRequest_iff args ethernet ipv4 udp md udpMd exponents d0 d1 _).mpr hSame

/-- **A reply has the format of a request only if all its bytes are the same.** For every
harvested packet of a 256-byte job that is not to be lost (`simulateEgressDrop`), whatever its
metadata and data, egress sends a reply to every worker it knows. Read as a request, the
reply is the packet egress was given exactly if the two exponents are equal and every byte
of the payload is equal to them. -/
theorem reply_reads_back_iff (cfg : EgressConfig) (undefined : BitVec 8)
    (intr : EgressIntrinsicMetadata) (args : ReceiveArgs) (md : BridgedMd)
    (udpMd : SwitchmlUdpMd) (exponents : ExponentsMd) (d0 d1 : Data)
    (hWorker : md.md.workerType = .switchmlUdp)
    (hType : md.md.packetType = .broadcast ∨ md.md.packetType = .retransmit)
    (hKept : md.md.simulateEgressDrop = false)
    (hKnown : (cfg.udp.setDstAddr (replyWorker md.md intr.egressRid)).isSome = true) :
    ∃ bits, egressPass cfg undefined intr (harvestedUdp md udpMd exponents d0 d1) = some bits ∧
      (ReadsBack args md.md udpMd exponents d0 d1 bits ↔ Uniform exponents d0 d1) := by
  obtain ⟨ethernet, ipv4, udp, hTotal, hLength, hBits⟩ :=
    egressPass_udp cfg undefined intr md udpMd exponents d0 d1 hWorker hType hKept hKnown
  exact ⟨_, hBits, readsBack_reply_iff args md.md udpMd exponents d0 d1 hTotal hLength⟩

/-- A switch that knows worker 0 only. -/
def soleUdpWorker : EgressConfig where
  udp := {
    switchMac := 0x0200c0a80106, switchIp := 0xc0a80106
    setDstAddr := fun worker =>
      if worker = 0 then some (0x0200c0a8010a, 0xc0a8010a) else none }
  roce := {
    switchMac := 0, switchIp := 0, createRocePacket := fun _ => none, fillInQpnAndPsn := [] }

/-- The entry a 256-byte job of one worker has. -/
def soleUdpArgs : ReceiveArgs where
  mgid := 0
  workerType := .switchmlUdp
  workerId := 0
  numWorkers := 1
  workerBitmap := 1
  packetSize := .mtu256

/-- A result in set 1 of slot 5, on its way to the worker. -/
def soleUdpMd : BridgedMd where
  md := {
    numWorkers := 1, packetSize := .mtu256, workerType := .switchmlUdp
    packetType := .broadcast, poolIndex := 11 }

/-- What was kept of the request. -/
def soleUdpRequest : SwitchmlUdpMd where
  srcPort := 4000
  dstPort := 48864
  tsi := 77
  msgType := 1
  opcode := 2

/-- A packet of which all bytes are 7 is the same in both formats. -/
theorem reply_reads_back_uniform :
    let words : Data := fun _ => 0x07070707
    ∃ bits, egressPass soleUdpWorker 0 ⟨5, 0⟩
        (harvestedUdp soleUdpMd soleUdpRequest ⟨7, 7⟩ words words) = some bits ∧
      ReadsBack soleUdpArgs soleUdpMd.md soleUdpRequest ⟨7, 7⟩ words words bits := by
  intro words
  obtain ⟨bits, hBits, hIff⟩ := reply_reads_back_iff soleUdpWorker 0 ⟨5, 0⟩ soleUdpArgs soleUdpMd
    soleUdpRequest ⟨7, 7⟩ words words rfl (.inl rfl) rfl rfl
  exact ⟨bits, hBits, hIff.mpr ⟨rfl, fun _ => ⟨by decide, by decide⟩⟩⟩

/-- Exponents 1 and 2 over a payload of zeros come back as something else. -/
theorem reply_misread :
    ∃ bits, egressPass soleUdpWorker 0 ⟨5, 0⟩
        (harvestedUdp soleUdpMd soleUdpRequest ⟨1, 2⟩ (fun _ => 0) (fun _ => 0)) = some bits ∧
      ¬ ReadsBack soleUdpArgs soleUdpMd.md soleUdpRequest ⟨1, 2⟩ (fun _ => 0) (fun _ => 0)
        bits := by
  obtain ⟨ethernet, ipv4, udp, hTotal, hLength, hBits⟩ := egressPass_udp soleUdpWorker 0 ⟨5, 0⟩
    soleUdpMd soleUdpRequest ⟨1, 2⟩ (fun _ => 0) (fun _ => 0) rfl (.inl rfl) rfl rfl
  refine ⟨_, hBits, ?_⟩
  rw [readsBack_reply_iff _ _ _ _ _ _ hTotal hLength]
  rintro ⟨hEq, -⟩
  exact absurd hEq (by decide)

end SwitchML.Wire
