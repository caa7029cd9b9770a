import SwitchML.Control.Handshake
import SwitchML.Wire.Refinement

/-!
# SwitchML wire format — who receives a reply

A broadcast leaves ingress once. The replication engine makes a copy for each node of the
multicast group, egress makes each copy into an RDMA WRITE by the tables of the control
plane, and the copy leaves through the port of its node. Here the tables are those that a
job has filled when it is set up (`RoceTables.Complete`).

* `delivered` — what leaves the switch for a broadcast;
* `lookup_receiveRoce_complete` — a packet from a queue pair of a worker is taken for that
  worker's, also if several workers run on one machine;
* `find?_sender` — the queue pair that a reply to a worker is for;
* `complete_tables_serve` — every worker is recognised, a broadcast leaves as one RDMA WRITE
  for each worker of the job and no others, through its port, and a retransmission goes to
  the worker that asked for it.
-/

namespace SwitchML

open BitCodec MatchAction

-- ---------------------------------------------------------------------------
-- Egress and replication
-- ---------------------------------------------------------------------------

/-- The copies that the replication engine makes of a packet for the group: the node of each
and its port. A node is left out if its exclusion id, which is its number, is that of the
packet. -/
def Pre.copies (s : Pre) (exclusionId : BitVec 16) : Finset (ℕ × Option ℕ) :=
  (s.group.filter fun rid => BitVec.ofNat 16 rid ≠ exclusionId).image fun rid => (rid, s.nodes rid)

namespace Wire

/-- The tables of `RDMASender`. -/
def egressConfig (setup : SwitchSetup) (s : RoceTables) : RoceEgressConfig where
  switchMac := setup.switchMac
  switchIp := setup.switchIp
  createRocePacket := s.createRocePacket
  fillInQpnAndPsn := s.sender

/-- What leaves the switch for a packet that goes to the group: for each copy its node, its
port and its bits. -/
def delivered (cfg : EgressConfig) (undefined : BitVec 8) (s : Pre) (exclusionId : BitVec 16)
    (bits : Bits) : Finset (ℕ × Option ℕ × Option Bits) :=
  (s.copies exclusionId).image fun copy =>
    let intr : EgressIntrinsicMetadata :=
      ⟨BitVec.ofNat 9 (copy.2.getD 0), BitVec.ofNat 16 copy.1⟩
    (copy.1, copy.2, egressPass cfg undefined intr bits)

/-- The bits of a reply. -/
def roceReplyBits (cfg : RoceEgressConfig) (fields : RoceWriteFields) (qpn : BitVec 24)
    (md : SwitchmlMd) (rdmaMd : SwitchmlRdmaMd) (exponents : ExponentsMd) (payload : List Data)
    (tail : Bits) : Bits :=
  ethernetH.encode (replyEthernet cfg fields) ++
    (ipv4H.encode { replyIpv4 cfg fields md with
      hdrChecksum := ipv4Checksum (replyIpv4 cfg fields md) } ++
    (udpH.encode (replyUdp md) ++ roceBody fields qpn md rdmaMd exponents payload tail))

end Wire

-- ---------------------------------------------------------------------------
-- Receiving
-- ---------------------------------------------------------------------------

/-- The packet comes from queue pair `i` of a worker, which its neighbor array leads to the
switch. -/
structure SentBy (setup : SwitchSetup) (w : WorkerSetup) (rank i : ℕ) (rp : RocePacket) : Prop where
  queuePair : i < w.qpNums.length
  srcAddr : rp.srcAddr = w.ipv4
  dstAddr : rp.dstAddr = setup.switchIp
  partitionKey : rp.partitionKey = setup.switchPartitionKey
  dstQp : rp.dstQp = BitVec.ofNat 24 (switchQpn rank i)
  opcode : rp.opcode.isRdmaWrite = true

/-- What the receive stage is to do for a worker of a job. -/
def WorkerSetup.receiveArgs (setup : SwitchSetup) (w : WorkerSetup) (rank size : ℕ) :
    ReceiveArgs where
  mgid := setup.switchmlWorkersMgid
  workerType := .roceV2
  workerId := BitVec.ofNat 16 rank
  numWorkers := BitVec.ofNat 8 size
  workerBitmap := BitVec.ofNat 32 (1 <<< rank)
  packetSize := w.packetSize

/-- All numbers fit their fields. -/
theorem receiveEntry_args (platform : Platform) (setup : SwitchSetup) (w : WorkerSetup)
    {rank size : ℕ} (hRank : rank < size) (hSize : size ≤ 32) :
    (setup.receiveEntry platform (w.request rank size).args).args =
      w.receiveArgs setup rank size := by
  have hRid : (w.request rank size).args.rid = rank := Int.toNat_natCast rank
  have hBitmap : 1 <<< rank < 2 ^ 32 := by
    rw [Nat.shiftLeft_eq, Nat.one_mul]
    exact Nat.pow_lt_pow_right (by decide) (by omega)
  have hPacket : w.packetSize.number < 2 ^ 2 := by cases w.packetSize <;> decide
  have hId : platform.store 16 rank = BitVec.ofNat 16 rank := platform.store_fits (by omega)
  have hCount : platform.store 8 size = BitVec.ofNat 8 size := platform.store_fits (by omega)
  have hMap := platform.store_fits hBitmap
  have hBytes := platform.store_fits hPacket
  unfold SwitchAddress.receiveEntry WorkerSetup.receiveArgs
  dsimp only
  rw [hRid, hId, hMap]
  show ({ .. } : ReceiveArgs) = _
  rw [show (w.request rank size).args.count = (size : ℤ) from rfl, hCount,
    show (w.request rank size).args.packetSize = (w.packetSize.number : ℤ) from rfl, hBytes,
    PacketSize.ofBits_number]

section Complete

variable {platform : Platform} {setup : SwitchSetup} {ports : BitVec 48 → Option ℕ} {n : ℕ}
  {workers : Fin n → WorkerSetup} {s : RoceTables}

/-- Workers are told apart by their queue pairs, even with one address. -/
theorem lookup_receiveRoce_complete (hComplete : s.Complete platform setup ports workers)
    (hn : n ≤ 32) {r : Fin n} {i : ℕ} {rp : RocePacket} (hi : i < 2 ^ 16)
    (hSent : SentBy setup (workers r) r i rp) :
    lookup .forward (receiveKey rp) (receiveRoceEntries s.receiveRoce) =
      receiveAction ((workers r).receiveArgs setup r n) rp.opcode := by
  have hRid : ∀ r : Fin n,
      (setup.receiveEntry platform ((workers r).request r n).args).workerRid.toNat = r := by
    intro r
    have hNumber := congrArg (BitVec.ofNat 16) (Int.toNat_natCast r)
    have := r.isLt
    exact (congrArg BitVec.toNat hNumber).trans ((BitVec.toNat_ofNat r.val 16).trans
      (Nat.mod_eq_of_lt (by omega)))
  have hLt : ∀ r : Fin n,
      (setup.receiveEntry platform ((workers r).request r n).args).workerRid.toNat < 128 := by
    intro r
    have := hRid r
    omega
  have hMem : setup.receiveEntry platform ((workers r).request r n).args ∈ s.receiveRoce :=
    hComplete.receiveRoce.mem_iff.mpr (List.mem_ofFn.mpr ⟨r, rfl⟩)
  obtain ⟨before, after, hSplit, hNot⟩ := List.eq_append_cons_of_mem hMem
  rw [← receiveEntry_args platform setup (workers r) r.isLt hn, hSplit]
  refine lookup_receiveRoce ?_ hSent.opcode fun e' he' => ?_
  · have hQp : rp.dstQp.toNat / 2 ^ 16 = 128 + r := by
      have := r.isLt
      rw [hSent.dstQp, switchQpn_eq (by omega) hi, BitVec.toNat_ofNat]
      omega
    rw [← hRid r, ← ReceiveEntry.masked_qpnTopBits_iff (hLt r)] at hQp
    simp only [ReceiveEntry.matchesPacket, Bool.and_eq_true, decide_eq_true_eq]
    exact ⟨⟨⟨hSent.srcAddr, hSent.dstAddr⟩, hSent.partitionKey⟩, hQp⟩
  · obtain ⟨r', rfl⟩ := List.mem_ofFn.mp
      (hComplete.receiveRoce.mem_iff.mp (hSplit ▸ List.mem_append_left _ he'))
    refine ReceiveEntry.apart_of_ne (hLt r) (hLt r') fun hEq => hNot ?_
    have hRank := congrArg BitVec.toNat hEq
    rw [hRid, hRid] at hRank
    rw [Fin.ext hRank]
    exact he'

-- ---------------------------------------------------------------------------
-- Replying
-- ---------------------------------------------------------------------------

/-- The queue pair of a worker that the replies for a pool index are for. -/
def QueuePairFor (platform : Platform) (w : WorkerSetup) (p : PoolIndex) (qpn : BitVec 24) :
    Prop :=
  ∃ e, platform.log2 (w.messageSize.toNat / w.packetSize.bytes) = some e ∧
    w.qpNums[p.toNat / 2 ^ (e + 1)]? = some qpn

theorem qpns_request (w : WorkerSetup) (rank size : ℕ) :
    (w.request rank size).args.qpns = w.qpNums := by
  rw [WorkerArgs.qpns]
  exact List.map_fst_zip (by simp [WorkerSetup.request])

/-- What the logarithm finds for a message is right. -/
def Platform.Log2Sound (platform : Platform) : Prop :=
  ∀ k < 2 ^ 32, ∀ e, platform.log2 k = some e → k = 2 ^ e

/-- The entries of a worker that a pool index hits are those of its queue pair. -/
theorem filter_queuePairEntries (hLog : platform.Log2Sound) (rank size : ℕ) {w : WorkerSetup}
    {p : PoolIndex} {qpn : BitVec 24} (hQueue : QueuePairFor platform w p qpn) :
    ((RoceTables.queuePairEntries platform (w.request rank size).args).filter
      fun x => x.2.hits p).map (fun x => x.2.qpn) = [qpn] := by
  obtain ⟨e, he, hq⟩ := hQueue
  have hBound : w.messageSize.toNat / w.packetSize.bytes < 2 ^ 32 :=
    (Nat.div_le_self _ _).trans_lt w.messageSize.isLt
  have hPow := hLog _ hBound e he
  have hInstalled : (addWriteWorker platform w.packetSize.number w.messageSize.toNat w.qpNums).1 =
      installEntries (e + 1) (senderMask (2 ^ e)) 0 w.qpNums := by
    have hPos : ¬ ((2 ^ e : ℕ) : ℤ) ≤ 0 := by
      have := Nat.two_pow_pos e
      omega
    rw [hPow] at he
    unfold addWriteWorker
    dsimp only
    rw [packetsPerMessage_number, hPow, if_neg hPos, Int.toNat_natCast, he]
  have hFilter := installEntries_filter e p 0 w.qpNums
  rw [if_pos (Nat.zero_le _), Nat.sub_zero, hq] at hFilter
  rw [RoceTables.queuePairEntries, qpns_request, List.filter_map, List.map_map]
  rw [← hInstalled] at hFilter
  exact hFilter

/-- **The queue pair of a reply.** -/
theorem find?_sender (hLog : platform.Log2Sound)
    (hComplete : s.Complete platform setup ports workers) {r : Fin n} {p : PoolIndex}
    {qpn : BitVec 24}
    (hQueue : QueuePairFor platform (workers r) p qpn) :
    ∃ worker entry, ((Wire.egressConfig setup s).fillInQpnAndPsn.find? fun e =>
        decide (e.1 = r.val) && e.2.hits p) = some (worker, entry) ∧
      entry.qpn = qpn := by
  have hOwn := filter_queuePairEntries hLog r n hQueue
  have hRid : ∀ r : Fin n,
      ∀ x ∈ RoceTables.queuePairEntries platform ((workers r).request r n).args, x.1 = r.val := by
    intro r x hx
    obtain ⟨e, -, rfl⟩ := List.mem_map.mp hx
    exact Int.toNat_natCast r
  have hMem : ∀ x, x ∈ s.sender ↔
      ∃ r : Fin n, x ∈ RoceTables.queuePairEntries platform ((workers r).request r n).args := by
    intro x
    rw [hComplete.sender.mem_iff, List.mem_flatMap]
    exact ⟨fun ⟨r, _, hx⟩ => ⟨r, hx⟩, fun ⟨r, hx⟩ => ⟨r, List.mem_finRange r, hx⟩⟩
  -- what is found is an entry of the worker, and there is one
  have hFound : ((Wire.egressConfig setup s).fillInQpnAndPsn.find? fun e =>
      decide (e.1 = r.val) && e.2.hits p).isSome := by
    obtain ⟨x, hx⟩ : ∃ x, x ∈ (RoceTables.queuePairEntries platform
        ((workers r).request r n).args).filter fun x => x.2.hits p := by
      refine List.exists_mem_of_ne_nil _ fun hNil => ?_
      rw [hNil] at hOwn
      cases hOwn
    obtain ⟨hEntry, hHits⟩ := List.mem_filter.mp hx
    refine List.find?_isSome.mpr ⟨x, (hMem x).mpr ⟨r, hEntry⟩, ?_⟩
    simpa [hRid r x hEntry] using hHits
  obtain ⟨⟨worker, entry⟩, hEq⟩ := Option.isSome_iff_exists.mp hFound
  refine ⟨worker, entry, hEq, ?_⟩
  have hHit := List.find?_some hEq
  rw [Bool.and_eq_true, decide_eq_true_eq] at hHit
  obtain ⟨hWorker, hHits⟩ := hHit
  obtain ⟨r', hr'⟩ := (hMem _).mp (List.mem_of_find?_eq_some hEq)
  have hSame : r' = r := Fin.ext ((hRid r' _ hr').symm.trans hWorker)
  rw [hSame] at hr'
  have hOwnHit : (worker, entry) ∈ (RoceTables.queuePairEntries platform
      ((workers r).request r n).args).filter fun x => x.2.hits p :=
    List.mem_filter.mpr ⟨hr', hHits⟩
  have hQpn := List.mem_map_of_mem (f := fun x : ℕ × SenderEntry => x.2.qpn) hOwnHit
  rw [hOwn] at hQpn
  exact List.mem_singleton.mp hQpn

end Complete

-- ---------------------------------------------------------------------------
-- A job is served
-- ---------------------------------------------------------------------------

namespace Wire

/-- The reply that egress makes for a worker of the job. -/
theorem egressPass_complete {platform : Platform} {setup : SwitchSetup}
    {ports : BitVec 48 → Option ℕ} {n : ℕ} {workers : Fin n → WorkerSetup} {s : RoceTables}
    (hLog : platform.Log2Sound) (hComplete : s.Complete platform setup ports workers) (hn : n ≤ 32)
    {md : BridgedMd} (rdmaMd : SwitchmlRdmaMd) (exponents : ExponentsMd) (payload : List Data)
    (tail : Bits) (hWorker : md.md.workerType = .roceV2)
    (hType : md.md.packetType = .broadcast ∨ md.md.packetType = .retransmit)
    (hKept : md.md.simulateEgressDrop = false) (hSize : PacketSize.InUse md.md.packetSize)
    {cfg : EgressConfig} (hCfg : cfg.roce = egressConfig setup s) (undefined : BitVec 8)
    {r : Fin n} {intr : EgressIntrinsicMetadata} {qpn : BitVec 24}
    (hReply : replyWorker md.md intr.egressRid = BitVec.ofNat 16 r)
    (hQueue : QueuePairFor platform (workers r) md.md.poolIndex qpn) :
    egressPass cfg undefined intr (harvestedRoce md rdmaMd exponents payload tail) =
      some (roceReplyBits (egressConfig setup s)
        (RoceTables.writeFields ((workers r).request r n).args) qpn
        { md.md with workerId := BitVec.ofNat 16 r } rdmaMd exponents payload tail) := by
  obtain ⟨worker, entry, hEntry, rfl⟩ := find?_sender hLog hComplete hQueue
  have hNumber : (replyWorker md.md intr.egressRid).toNat = r := by
    have := r.isLt
    rw [hReply, BitVec.toNat_ofNat, Nat.mod_eq_of_lt (by omega)]
  have hFields : cfg.roce.createRocePacket (replyWorker md.md intr.egressRid).toNat =
      some (RoceTables.writeFields ((workers r).request r n).args) := by
    rw [hCfg, hNumber]
    exact hComplete.createRocePacket r
  rw [← hNumber, ← hCfg] at hEntry
  rw [← hReply, ← hCfg]
  exact egressPass_roce cfg undefined intr rdmaMd exponents payload tail hWorker hType hKept
    hSize hFields hEntry

/-- **A job is served.** With the tables as the at most 32 workers of a job have filled them:
a packet from any queue pair of a worker, of which the number in its QPN has 16 bits, is taken
for that worker's. Of the packets that egress is not told to lose (`simulateEgressDrop`), a
broadcast leaves the switch as one RDMA WRITE for each worker, and no others, through the port
of the worker and to the queue pair that its pool index belongs to. A packet that is sent
again is made out to the worker that it is for, to the same queue pair; the port it leaves
through is chosen by ingress (`retransmitEth`), not here. -/
theorem complete_tables_serve (platform : Platform) (hLog : platform.Log2Sound)
    (setup : SwitchSetup) (ports : BitVec 48 → Option ℕ) {n : ℕ} (hn : n ≤ 32)
    (workers : Fin n → WorkerSetup) (s : RoceTables)
    (hComplete : s.Complete platform setup ports workers) (cfg : EgressConfig)
    (hCfg : cfg.roce = egressConfig setup s) (undefined : BitVec 8) :
    (∀ (r : Fin n) (i : ℕ) (rp : RocePacket), i < 2 ^ 16 → SentBy setup (workers r) r i rp →
      lookup .forward (receiveKey rp) (receiveRoceEntries s.receiveRoce) =
        receiveAction ((workers r).receiveArgs setup r n) rp.opcode) ∧
    ∀ (md : BridgedMd) (rdmaMd : SwitchmlRdmaMd) (exponents : ExponentsMd) (payload : List Data)
      (tail : Bits) (qpn : Fin n → BitVec 24), md.md.workerType = .roceV2 →
      md.md.simulateEgressDrop = false → PacketSize.InUse md.md.packetSize →
      (∀ r, QueuePairFor platform (workers r) md.md.poolIndex (qpn r)) →
      let reply := fun r : Fin n => roceReplyBits (egressConfig setup s)
        (RoceTables.writeFields ((workers r).request r n).args) (qpn r)
        { md.md with workerId := BitVec.ofNat 16 r } rdmaMd exponents payload tail
      (md.md.packetType = .broadcast →
        delivered cfg undefined s.pre nullLevel1ExclusionId
            (harvestedRoce md rdmaMd exponents payload tail) =
          Finset.univ.image fun r : Fin n => (r.val, ports (workers r).mac, some (reply r))) ∧
      (md.md.packetType = .retransmit → ∀ (r : Fin n) (intr : EgressIntrinsicMetadata),
        md.md.workerId = BitVec.ofNat 16 r →
        egressPass cfg undefined intr (harvestedRoce md rdmaMd exponents payload tail) =
          some (reply r)) := by
  refine ⟨fun r i rp hi hSent => lookup_receiveRoce_complete hComplete hn hi hSent, ?_⟩
  intro md rdmaMd exponents payload tail qpn hWorker hKept hSize hQueue reply
  refine ⟨fun hType => ?_, fun hType r intr hAsked => ?_⟩
  · have hReply : ∀ (r : Fin n) (port : PortId),
        egressPass cfg undefined ⟨port, BitVec.ofNat 16 r⟩
          (harvestedRoce md rdmaMd exponents payload tail) = some (reply r) := fun r port =>
      egressPass_complete hLog hComplete hn rdmaMd exponents payload tail hWorker
        (.inl hType) hKept hSize hCfg undefined (if_pos hType) (hQueue r)
    -- no node has the exclusion id of broadcasts
    have hCopies : s.pre.copies nullLevel1ExclusionId =
        Finset.univ.image fun r : Fin n => (r.val, ports (workers r).mac) := by
      ext copy
      simp only [Pre.copies, hComplete.group, Finset.mem_image, Finset.mem_filter,
        Finset.mem_range, Finset.mem_univ, true_and]
      constructor
      · rintro ⟨k, ⟨hk, -⟩, rfl⟩
        exact ⟨⟨k, hk⟩, by rw [hComplete.nodes ⟨k, hk⟩]⟩
      · rintro ⟨r, rfl⟩
        refine ⟨r, ⟨r.isLt, fun hEq => ?_⟩, by rw [hComplete.nodes r]⟩
        have hNat := congrArg BitVec.toNat hEq
        rw [BitVec.toNat_ofNat, show nullLevel1ExclusionId.toNat = 65535 from rfl] at hNat
        have := r.isLt
        omega
    rw [delivered, hCopies, Finset.image_image]
    exact Finset.image_congr fun r _ => by simp only [Function.comp_apply, hReply r]
  · have hReply : replyWorker md.md intr.egressRid = BitVec.ofNat 16 r := by
      rw [replyWorker, hType, if_neg (by decide), hAsked]
    exact egressPass_complete hLog hComplete hn rdmaMd exponents payload tail hWorker
      (.inr hType) hKept hSize hCfg undefined hReply (hQueue r)

theorem log2Sound_exactPlatform : exactPlatform.Log2Sound := by
  intro k _ e he
  replace he : (if 2 ^ Nat.log2 k = k then some (Nat.log2 k) else none) = some e := he
  split at he
  · next hPow => rw [← Option.some.inj he, hPow]
  · cases he

/-- Two workers: the first packet of worker 1 is taken for its own, the sum `[12, 14]` goes
to the only queue pair of both, and once more to worker 1. -/
theorem complete_tables_serve_two :
    let s := [(0 : Fin 2), 1].foldl (fun t r => t.withWorker exactPlatform plainSetup plainPorts
      ((plainWorkers r).request r 2).args) RoceTables.initial.workerClearAll
    let rp : RocePacket := {
      srcAddr := (plainWorkers 1).ipv4, dstAddr := plainSetup.switchIp
      partitionKey := plainSetup.switchPartitionKey, dstQp := 0x810000, psn := 7
      opcode := .rdmaWriteFirst, payload := [6, 7] }
    let cfg : EgressConfig := ⟨⟨0, 0, fun _ => none⟩, egressConfig plainSetup s⟩
    let md : SwitchmlMd := {
      packetType := .broadcast, workerType := .roceV2, packetSize := .mtu256, workerId := 1 }
    let reply := fun (md : SwitchmlMd) (r : Fin 2) => roceReplyBits (egressConfig plainSetup s)
      (RoceTables.writeFields ((plainWorkers r).request r 2).args) 0x11
      { md with workerId := BitVec.ofNat 16 r } {} {} [12, 14] []
    lookup .forward (receiveKey rp) (receiveRoceEntries s.receiveRoce) =
        receiveAction ((plainWorkers 1).receiveArgs plainSetup 1 2) .rdmaWriteFirst ∧
      delivered cfg 0 s.pre nullLevel1ExclusionId
          (harvestedRoce ⟨md, 0b01⟩ {} {} [12, 14] []) =
        Finset.univ.image (fun r : Fin 2 =>
          (r.val, plainPorts (plainWorkers r).mac, some (reply md r))) ∧
      egressPass cfg 0 ⟨5, 0⟩
          (harvestedRoce ⟨{ md with packetType := .retransmit }, 0b01⟩ {} {} [12, 14] []) =
        some (reply { md with packetType := .retransmit } 1) := by
  intro s rp cfg md reply
  have hComplete : s.Complete exactPlatform plainSetup plainPorts plainWorkers :=
    complete_of_order .initial RoceTables.initial_recorded plainWorkers_apart
      plainWorkers_servable (by decide)
  have hLog : ∀ r, exactPlatform.log2 ((plainWorkers r).messageSize.toNat /
      (plainWorkers r).packetSize.bytes) = some 2 := by decide +kernel
  have hQueue : ∀ r, QueuePairFor exactPlatform (plainWorkers r) md.poolIndex 0x11 :=
    fun r => ⟨2, hLog r, by simp [md, plainWorkers]⟩
  obtain ⟨hReceive, hSend⟩ := complete_tables_serve exactPlatform log2Sound_exactPlatform
    plainSetup plainPorts (by decide) plainWorkers s hComplete cfg rfl 0
  refine ⟨hReceive 1 0 rp (by decide) ?_, ?_, ?_⟩
  · exact ⟨by decide, rfl, rfl, rfl, by decide, rfl⟩
  · exact (hSend ⟨md, 0b01⟩ {} {} [12, 14] [] (fun _ => 0x11) rfl rfl (.inl rfl) hQueue).1 rfl
  · exact (hSend ⟨{ md with packetType := .retransmit }, 0b01⟩ {} {} [12, 14] [] (fun _ => 0x11)
      rfl rfl (.inl rfl) hQueue).2 rfl 1 ⟨5, 0⟩ rfl

end Wire

end SwitchML
