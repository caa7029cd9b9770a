import SwitchML.Switch.Tables

/-!
# SwitchML switch — NextStep

What happens to a packet at the end of a pass: the `next_step` table with its
entries in the program's order, the effect of each action, and the slot status
flags that later passes read.

The `lookup_*` lemmas say what the table does for each kind of pass; later modules
use them and never go through the entries again.
-/

namespace SwitchML

open MatchAction

/-- The actions of `next_step` that some entry uses. -/
inductive NextStepAction where
  | drop
  | finishConsume
  | recirculateForConsume1 (recircPort : PortId)
  | recirculateForConsume2SamePortNextPipe
  | recirculateForConsume3SamePortNextPipe
  | recirculateForHarvest7_256B (recircPort : PortId)
  | recirculateForHarvest1_1024B (recircPort : PortId)
  | recirculateForHarvest2 (recircPort : PortId)
  | recirculateForHarvest3SamePort
  | recirculateForHarvest4AlternatePort
  | recirculateForHarvest4 (recircPort : PortId)
  | recirculateForHarvest5 (recircPort : PortId)
  | recirculateForHarvest6 (recircPort : PortId)
  | recirculateForHarvest7 (recircPort : PortId)
  | broadcastUdp
  | broadcastRoce
  | retransmitUdp
  | retransmitRoce
deriving DecidableEq, Repr

structure NextStepKey where
  packetSize : PacketSize
  workerId : WorkerId
  packetType : PacketType
  firstLastFlag : NumWorkers
  mapResult : WorkerBitmap
  workerType : WorkerType
  useAlternateRecircPort : Bool

/-- One row of `next_step`, its fields in the order of the table's key. -/
def nextStepRow (size : KeyField PacketSize) (id : KeyField WorkerId) (ty : KeyField PacketType)
    (flag : KeyField NumWorkers) (map : KeyField WorkerBitmap) (wt : KeyField WorkerType)
    (alt : KeyField Bool) (act : NextStepAction) : KeyField NextStepKey × NextStepAction :=
  (fun k => size k.packetSize && id k.workerId && ty k.packetType && flag k.firstLastFlag &&
    map k.mapResult && wt k.workerType && alt k.useAlternateRecircPort, act)

section Entries

open KeyField

/-- The sixteen rows that spread `CONSUME0` packets of 1024 bytes over the loopback
ports of pipe 1 by the worker id. -/
def consume1Rows (flag : KeyField NumWorkers) (map : KeyField WorkerBitmap) :
    Table NextStepKey NextStepAction :=
  (List.range 16).map fun i =>
    nextStepRow (exact .mtu1024) (masked (BitVec.ofNat 16 i) 0xf) (exact (.consume 0))
      flag map any any (.recirculateForConsume1 (BitVec.ofNat 9 (128 + 4 * i)))

/-- The rows for packets of 128, 256 and 512 bytes. -/
def smallPacketRows : Table NextStepKey NextStepAction :=
  [nextStepRow (exact .mtu128) any any any any any any .drop,
   -- last packet of the slot
   nextStepRow (exact .mtu256) any (exact (.consume 0)) (exact 1) any any any
     (.recirculateForHarvest7_256B 68),
   -- neither last nor seen before
   nextStepRow (exact .mtu256) any (exact (.consume 0)) any (exact 0) any any .finishConsume,
   -- retransmitted packet to a full slot
   nextStepRow (exact .mtu256) any (exact (.consume 0)) (exact 0) any any any
     (.recirculateForHarvest7_256B 68),
   nextStepRow (exact .mtu256) any (exact (.consume 0)) any any any any .drop,
   nextStepRow (exact .mtu512) any any any any any any .drop]

/-- The rows for packets of 1024 bytes from the end of `CONSUME0` to `HARVEST6`. -/
def largePacketRows : Table NextStepKey NextStepAction :=
  [nextStepRow (exact .mtu1024) any (exact (.consume 0)) any any any any .drop,
   nextStepRow (exact .mtu1024) any (exact (.consume 1)) any any any any
     .recirculateForConsume2SamePortNextPipe,
   nextStepRow (exact .mtu1024) any (exact (.consume 2)) any any any any
     .recirculateForConsume3SamePortNextPipe,
   -- last packet of the slot
   nextStepRow (exact .mtu1024) any (exact (.consume 3)) (exact 1) any any any
     (.recirculateForHarvest1_1024B 452),
   -- neither last nor seen before
   nextStepRow (exact .mtu1024) any (exact (.consume 3)) any (exact 0) any any .finishConsume,
   -- retransmitted packet to a full slot
   nextStepRow (exact .mtu1024) any (exact (.consume 3)) (exact 0) any any any
     (.recirculateForHarvest1_1024B 452),
   nextStepRow (exact .mtu1024) any (exact (.consume 3)) any any any any .drop,
   nextStepRow (exact .mtu1024) any (exact (.harvest 0)) any any any any
     (.recirculateForHarvest1_1024B 452),
   nextStepRow (exact .mtu1024) any (exact (.harvest 1)) any any any any
     (.recirculateForHarvest2 324),
   nextStepRow (exact .mtu1024) any (exact (.harvest 2)) any any any any
     .recirculateForHarvest3SamePort,
   nextStepRow (exact .mtu1024) any (exact (.harvest 3)) any any any (exact true)
     .recirculateForHarvest4AlternatePort,
   nextStepRow (exact .mtu1024) any (exact (.harvest 3)) any any any any
     (.recirculateForHarvest4 196),
   nextStepRow (exact .mtu1024) any (exact (.harvest 4)) any any any any
     (.recirculateForHarvest5 196),
   nextStepRow (exact .mtu1024) any (exact (.harvest 5)) any any any any
     (.recirculateForHarvest6 64),
   nextStepRow (exact .mtu1024) any (exact (.harvest 6)) any any any any
     (.recirculateForHarvest7 68)]

/-- The rows of the final pass. -/
def finalPassRows : Table NextStepKey NextStepAction :=
  [nextStepRow any any (exact (.harvest 7)) (exact 1) (exact 0) (exact .switchmlUdp) any
     .broadcastUdp,
   nextStepRow any any (exact (.harvest 7)) (exact 1) (exact 0) (exact .roceV2) any
     .broadcastRoce,
   nextStepRow any any (exact (.harvest 7)) (exact 1) (exact 0) any any .drop,
   nextStepRow any any (exact (.harvest 7)) (exact 0) (exact 0) any any .drop,
   nextStepRow any any (exact (.harvest 7)) (exact 0) any (exact .switchmlUdp) any
     .retransmitUdp,
   nextStepRow any any (exact (.harvest 7)) (exact 0) any (exact .roceV2) any
     .retransmitRoce,
   nextStepRow any any (exact (.harvest 7)) any any any any .drop]

/-- The constant entries of `next_step`. -/
def nextStepEntries : Table NextStepKey NextStepAction :=
  smallPacketRows ++
  -- `CONSUME0` packet not seen before
  (consume1Rows any (exact 0) ++
  -- retransmitted packet to a full slot, on the same path to keep the order
  (consume1Rows (exact 0) any ++
  (largePacketRows ++ finalPassRows)))

end Entries

-- ---------------------------------------------------------------------------
-- Actions
-- ---------------------------------------------------------------------------

/-- `recirculate_for_consume`: both data headers have been consumed. -/
def recirculateForConsume (ty : PacketType) (recircPort : PortId) (st : PassState) :
    PassState :=
  { st with
    d0Valid := false, d1Valid := false
    ucastEgressPort := some recircPort, bypassEgress := true, dropCtl := false
    md := { st.md with packetType := ty } }

def recirculateForHarvest (ty : PacketType) (recircPort : PortId) (st : PassState) :
    PassState :=
  { st with
    ucastEgressPort := some recircPort, bypassEgress := true, dropCtl := false
    md := { st.md with packetType := ty } }

/-- `broadcast_eth`: to all nodes of the job's multicast group. -/
def broadcastEth (st : PassState) : PassState :=
  { st with
    d1Valid := false
    mcastGrpA := some st.md.mgid, level1ExclusionId := nullLevel1ExclusionId
    bypassEgress := false, dropCtl := false
    md := { st.md with packetType := .broadcast } }

/-- `retransmit_eth`: back out of the port the packet came in on. -/
def retransmitEth (st : PassState) : PassState :=
  { st with
    d1Valid := false
    ucastEgressPort := some st.md.ingressPort, bypassEgress := false, dropCtl := false
    md := { st.md with packetType := .retransmit } }

/-- The port with the same number in another pipe, `pipe ++ ingress_port[6:0]`. -/
def samePortInPipe (pipe : BitVec 2) (port : PortId) : PortId :=
  pipe ++ port.extractLsb' 0 7

/-- The effect of an action. `alternate` is the port set by
`set_alternate_recirc_port`, none when the default action is `NoAction`. -/
def NextStepAction.run (alternate : Option PortId) (st : PassState) :
    NextStepAction → PassState
  | .drop => { st with dropCtl := true, md := { st.md with packetType := .ignore } }
  | .finishConsume => { st with dropCtl := true }
  | .recirculateForConsume1 port => recirculateForConsume (.consume 1) port st
  | .recirculateForConsume2SamePortNextPipe =>
    recirculateForConsume (.consume 2) (samePortInPipe 2 st.ingressPort) st
  | .recirculateForConsume3SamePortNextPipe =>
    recirculateForConsume (.consume 3) (samePortInPipe 3 st.ingressPort) st
  | .recirculateForHarvest7_256B port =>
    recirculateForHarvest (.harvest 7) port { st with d0Valid := false }
  | .recirculateForHarvest1_1024B port =>
    recirculateForHarvest (.harvest 1) port { st with d0Valid := false }
  | .recirculateForHarvest2 port =>
    recirculateForHarvest (.harvest 2) port { st with d1Valid := false }
  | .recirculateForHarvest3SamePort =>
    recirculateForHarvest (.harvest 3) st.ingressPort { st with d0Valid := false }
  | .recirculateForHarvest4AlternatePort =>
    recirculateForHarvest (.harvest 4) (alternate.getD 0) { st with d1Valid := false }
  | .recirculateForHarvest4 port =>
    recirculateForHarvest (.harvest 4) port { st with d1Valid := false }
  | .recirculateForHarvest5 port =>
    recirculateForHarvest (.harvest 5) port { st with d0Valid := false }
  | .recirculateForHarvest6 port =>
    recirculateForHarvest (.harvest 6) port { st with d1Valid := false }
  | .recirculateForHarvest7 port =>
    recirculateForHarvest (.harvest 7) port { st with d0Valid := false }
  | .broadcastUdp => broadcastEth st
  | .broadcastRoce => broadcastEth st
  | .retransmitUdp => retransmitEth st
  | .retransmitRoce => retransmitEth st

/-- Set the slot status flags for later passes; none is ever cleared. -/
def setSlotStatus (st : PassState) : PassState :=
  { st with
    md := { st.md with
      mapResultNonzero := st.md.mapResultNonzero || decide (st.mapResult ≠ 0)
      bitmapBeforeNonzero := st.md.bitmapBeforeNonzero || decide (st.workerBitmapBefore ≠ 0)
      firstFlag := st.md.firstFlag || decide (st.firstLastFlag = 0)
      lastFlag := st.md.lastFlag || decide (st.firstLastFlag = 1) } }

/-- The key `next_step` matches on. -/
def nextStepKey (alternate : Option PortId) (st : PassState) : NextStepKey where
  packetSize := st.md.packetSize
  workerId := st.md.workerId
  packetType := st.md.packetType
  firstLastFlag := st.firstLastFlag
  mapResult := st.mapResult
  workerType := st.md.workerType
  useAlternateRecircPort := alternate.isSome

/-- Decide what to do with a packet, and record the slot status. -/
def nextStep (alternate : Option PortId) (st : PassState) : PassState :=
  setSlotStatus
    ((lookup .drop (nextStepKey alternate st) nextStepEntries).run alternate st)

/-! ## What the table does -/

/-- The loopback port of pipe 1 for a worker. -/
def consume1Port (id : WorkerId) : PortId := BitVec.ofNat 9 (128 + 4 * (id.toNat % 16))

theorem consume1Port_cases (P : PortId → Prop)
    (h : ∀ m : Fin 16, P (BitVec.ofNat 9 (128 + 4 * m.val))) (id : WorkerId) :
    P (consume1Port id) :=
  h ⟨id.toNat % 16, Nat.mod_lt _ (by decide)⟩

theorem lookup_consume1Rows {k : NextStepKey} {flag : KeyField NumWorkers}
    {map : KeyField WorkerBitmap} (hSize : k.packetSize = .mtu1024)
    (hType : k.packetType = .consume 0) (hFlag : flag k.firstLastFlag = true)
    (hMap : map k.mapResult = true) (rest : Table NextStepKey NextStepAction) :
    lookup .drop k (consume1Rows flag map ++ rest) =
      .recirculateForConsume1 (consume1Port k.workerId) := by
  have hRow : ∀ i < 16, (nextStepRow (KeyField.exact .mtu1024)
      (KeyField.masked (BitVec.ofNat 16 i) 0xf) (KeyField.exact (.consume 0)) flag map KeyField.any
      KeyField.any (.recirculateForConsume1 (BitVec.ofNat 9 (128 + 4 * i)))).1 k = true ↔
      i = k.workerId.toNat % 16 := by
    intro i hi
    refine Iff.trans ?_ (KeyField.masked_low 4 0xf k.workerId rfl (by decide) hi)
    simp [nextStepRow, hSize, hType, hFlag, hMap]
  have hMod : k.workerId.toNat % 16 < 16 := Nat.mod_lt _ (by decide)
  exact lookup_family (List.mem_range.mpr hMod) ((hRow _ hMod).mpr rfl)
    (fun i hi h => (hRow i (List.mem_range.mp hi)).mp h) rest

theorem lookup_consume1Rows_skip {k : NextStepKey} {flag : KeyField NumWorkers}
    {map : KeyField WorkerBitmap}
    (h : k.packetSize ≠ .mtu1024 ∨ k.packetType ≠ .consume 0 ∨ flag k.firstLastFlag = false ∨
      map k.mapResult = false)
    (rest : Table NextStepKey NextStepAction) :
    lookup .drop k (consume1Rows flag map ++ rest) = lookup .drop k rest := by
  apply lookup_append_miss
  intro row hRow
  obtain ⟨i, -, rfl⟩ := List.mem_map.mp hRow
  rcases h with h | h | h | h <;> simp [nextStepRow, h]

/-- `CONSUME0` of a 256-byte packet. -/
theorem lookup_consume0_256B {k : NextStepKey} (hSize : k.packetSize = .mtu256)
    (hType : k.packetType = .consume 0) :
    lookup .drop k nextStepEntries =
      if k.firstLastFlag = 1 then .recirculateForHarvest7_256B 68
      else if k.mapResult = 0 then .finishConsume
      else if k.firstLastFlag = 0 then .recirculateForHarvest7_256B 68
      else .drop := by
  simp [nextStepEntries, smallPacketRows, nextStepRow, lookup_cons, hSize, hType]

/-- `CONSUME0` of a 1024-byte packet: new packets and those to a full slot go on. -/
theorem lookup_consume0_1024B {k : NextStepKey} (hSize : k.packetSize = .mtu1024)
    (hType : k.packetType = .consume 0) :
    lookup .drop k nextStepEntries =
      if k.mapResult = 0 ∨ k.firstLastFlag = 0 then
        .recirculateForConsume1 (consume1Port k.workerId)
      else .drop := by
  rw [nextStepEntries, lookup_append_miss]
  · by_cases hMap : k.mapResult = 0
    · rw [lookup_consume1Rows hSize hType rfl (by simp [hMap]), if_pos (.inl hMap)]
    rw [lookup_consume1Rows_skip (.inr (.inr (.inr (decide_eq_false hMap))))]
    by_cases hFlag : k.firstLastFlag = 0
    · rw [lookup_consume1Rows hSize hType (by simp [hFlag]) rfl, if_pos (.inr hFlag)]
    · rw [lookup_consume1Rows_skip (.inr (.inr (.inl (decide_eq_false hFlag)))),
        if_neg (not_or.mpr ⟨hMap, hFlag⟩)]
      simp [largePacketRows, nextStepRow, lookup_cons, hSize, hType]
  · simp [smallPacketRows, nextStepRow, hSize]

/-- The passes of a 1024-byte packet between the first and the last meet only
`largePacketRows`. -/
theorem lookup_nextStepEntries_1024B {k : NextStepKey} (hSize : k.packetSize = .mtu1024)
    (hType : k.packetType ≠ .consume 0) :
    lookup .drop k nextStepEntries = lookup .drop k (largePacketRows ++ finalPassRows) := by
  rw [nextStepEntries, lookup_append_miss,
    lookup_consume1Rows_skip (.inr (.inl hType)), lookup_consume1Rows_skip (.inr (.inl hType))]
  simp [smallPacketRows, nextStepRow, hSize]

/-- `CONSUME3` decides like the only consume pass of a 256-byte packet. -/
theorem lookup_consume3_1024B {k : NextStepKey} (hSize : k.packetSize = .mtu1024)
    (hType : k.packetType = .consume 3) :
    lookup .drop k nextStepEntries =
      if k.firstLastFlag = 1 then .recirculateForHarvest1_1024B 452
      else if k.mapResult = 0 then .finishConsume
      else if k.firstLastFlag = 0 then .recirculateForHarvest1_1024B 452
      else .drop := by
  rw [lookup_nextStepEntries_1024B hSize (by simp [hType])]
  simp [largePacketRows, nextStepRow, lookup_cons, hSize, hType]

/-- `HARVEST7`, and every later pass of a 256-byte packet, meets only `finalPassRows`. -/
theorem lookup_finalPass {k : NextStepKey}
    (h : k.packetSize = .mtu256 ∧ k.packetType ≠ .consume 0 ∨
      k.packetSize = .mtu1024 ∧ k.packetType = .harvest 7) :
    lookup .drop k nextStepEntries = lookup .drop k finalPassRows := by
  have hType : k.packetType ≠ .consume 0 := by
    rcases h with ⟨-, h⟩ | ⟨-, h⟩
    · exact h
    · simp [h]
  rw [nextStepEntries, lookup_append_miss,
    lookup_consume1Rows_skip (.inr (.inl hType)), lookup_consume1Rows_skip (.inr (.inl hType)),
    lookup_append_miss]
  · rcases h with ⟨h, -⟩ | ⟨-, h⟩ <;> simp [largePacketRows, nextStepRow, h]
  · rcases h with ⟨h, -⟩ | ⟨h, -⟩ <;> simp [smallPacketRows, nextStepRow, h, hType]

/-- `HARVEST7` of a RoCE packet of a size that has a way through the switch. -/
theorem lookup_harvest7_roce {k : NextStepKey}
    (hSize : k.packetSize = .mtu256 ∨ k.packetSize = .mtu1024)
    (hType : k.packetType = .harvest 7) (hRoce : k.workerType = .roceV2) :
    lookup .drop k nextStepEntries =
      if k.firstLastFlag = 1 ∧ k.mapResult = 0 then .broadcastRoce
      else if k.firstLastFlag = 0 ∧ k.mapResult ≠ 0 then .retransmitRoce
      else .drop := by
  have hFinal : lookup .drop k nextStepEntries = lookup .drop k finalPassRows := by
    refine lookup_finalPass (hSize.imp (fun h => ⟨h, ?_⟩) fun h => ⟨h, hType⟩)
    simp [hType]
  rw [hFinal]
  by_cases hMap : k.mapResult = 0#32 <;> by_cases hFlag : k.firstLastFlag = 0#8 <;>
    simp [finalPassRows, nextStepRow, lookup_cons, hType, hRoce, hMap, hFlag]

-- ---------------------------------------------------------------------------
-- Recirculation
-- ---------------------------------------------------------------------------

/-- What an action that recirculates a packet makes of it: its new type, and the port it
is sent to. -/
def NextStepAction.recirculation (alternate : Option PortId) (ingressPort : PortId) :
    NextStepAction → Option (PacketType × PortId)
  | .recirculateForConsume1 port => some (.consume 1, port)
  | .recirculateForConsume2SamePortNextPipe => some (.consume 2, samePortInPipe 2 ingressPort)
  | .recirculateForConsume3SamePortNextPipe => some (.consume 3, samePortInPipe 3 ingressPort)
  | .recirculateForHarvest7_256B port => some (.harvest 7, port)
  | .recirculateForHarvest1_1024B port => some (.harvest 1, port)
  | .recirculateForHarvest2 port => some (.harvest 2, port)
  | .recirculateForHarvest3SamePort => some (.harvest 3, ingressPort)
  | .recirculateForHarvest4AlternatePort => some (.harvest 4, alternate.getD 0)
  | .recirculateForHarvest4 port => some (.harvest 4, port)
  | .recirculateForHarvest5 port => some (.harvest 5, port)
  | .recirculateForHarvest6 port => some (.harvest 6, port)
  | .recirculateForHarvest7 port => some (.harvest 7, port)
  | _ => none

/-- The one way of a 1024-byte packet through the switch. -/
def nextHop (alternate : Option PortId) (ingressPort : PortId) (id : WorkerId) :
    PacketType → Option (PacketType × PortId)
  | .consume 0 => some (.consume 1, consume1Port id)
  | .consume 1 => some (.consume 2, samePortInPipe 2 ingressPort)
  | .consume 2 => some (.consume 3, samePortInPipe 3 ingressPort)
  | .consume 3 | .harvest 0 => some (.harvest 1, 452)
  | .harvest 1 => some (.harvest 2, 324)
  | .harvest 2 => some (.harvest 3, ingressPort)
  | .harvest 3 => some (.harvest 4, alternate.getD 196)
  | .harvest 4 => some (.harvest 5, 196)
  | .harvest 5 => some (.harvest 6, 64)
  | .harvest 6 => some (.harvest 7, 68)
  | _ => none

/-- The final pass recirculates nothing. -/
theorem recirculation_finalPassRows (alternate : Option PortId) (ingressPort : PortId)
    (k : NextStepKey) :
    (lookup .drop k finalPassRows).recirculation alternate ingressPort = none := by
  rcases lookup_eq_or_mem .drop k finalPassRows with h | ⟨row, hRow, -, h⟩
  · rw [h]; rfl
  · rw [h]
    simp only [finalPassRows, List.mem_cons, List.not_mem_nil, or_false] at hRow
    rcases hRow with h | h | h | h | h | h | h <;> rw [h] <;> rfl

/-- The passes of a 1024-byte packet between the first and the last. -/
theorem recirculation_largePacketRows {alternate : Option PortId} {ingressPort : PortId}
    {k : NextStepKey} {hop : PacketType × PortId}
    (hAlt : k.useAlternateRecircPort = alternate.isSome) (hSize : k.packetSize = .mtu1024)
    (hType : k.packetType ≠ .consume 0 ∧ k.packetType ≠ .consume 3)
    (h : (lookup .drop k (largePacketRows ++ finalPassRows)).recirculation alternate ingressPort =
      some hop) :
    nextHop alternate ingressPort k.workerId k.packetType = some hop := by
  -- what is left to each type is the action of its row
  have hRow : ∀ act, lookup .drop k (largePacketRows ++ finalPassRows) = act →
      act.recirculation alternate ingressPort =
        nextHop alternate ingressPort k.workerId k.packetType →
      nextHop alternate ingressPort k.workerId k.packetType = some hop := by
    intro act hAct hHop
    rw [← hHop, ← hAct, h]
  have hFinal : lookup .drop k (largePacketRows ++ finalPassRows) =
      lookup .drop k finalPassRows →
      nextHop alternate ingressPort k.workerId k.packetType = some hop := by
    intro hEq
    rw [hEq, recirculation_finalPassRows] at h
    cases h
  cases hTy : k.packetType with
  | consume i =>
    rw [← hTy]
    match i, hTy with
    | 0, hTy => exact absurd hTy hType.1
    | 1, hTy =>
      exact hRow .recirculateForConsume2SamePortNextPipe
        (by simp [largePacketRows, nextStepRow, lookup_cons, hSize, hTy]) (by rw [hTy]; rfl)
    | 2, hTy =>
      exact hRow .recirculateForConsume3SamePortNextPipe
        (by simp [largePacketRows, nextStepRow, lookup_cons, hSize, hTy]) (by rw [hTy]; rfl)
    | 3, hTy => exact absurd hTy hType.2
  | harvest j =>
    rw [← hTy]
    match j, hTy with
    | 0, hTy =>
      exact hRow (.recirculateForHarvest1_1024B 452)
        (by simp [largePacketRows, nextStepRow, lookup_cons, hSize, hTy]) (by rw [hTy]; rfl)
    | 1, hTy =>
      exact hRow (.recirculateForHarvest2 324)
        (by simp [largePacketRows, nextStepRow, lookup_cons, hSize, hTy]) (by rw [hTy]; rfl)
    | 2, hTy =>
      exact hRow .recirculateForHarvest3SamePort
        (by simp [largePacketRows, nextStepRow, lookup_cons, hSize, hTy]) (by rw [hTy]; rfl)
    | 3, hTy =>
      cases alternate with
      | none =>
        exact hRow (.recirculateForHarvest4 196)
          (by simp [largePacketRows, nextStepRow, lookup_cons, hSize, hTy, hAlt]) (by rw [hTy]; rfl)
      | some port =>
        exact hRow .recirculateForHarvest4AlternatePort
          (by simp [largePacketRows, nextStepRow, lookup_cons, hSize, hTy, hAlt]) (by rw [hTy]; rfl)
    | 4, hTy =>
      exact hRow (.recirculateForHarvest5 196)
        (by simp [largePacketRows, nextStepRow, lookup_cons, hSize, hTy]) (by rw [hTy]; rfl)
    | 5, hTy =>
      exact hRow (.recirculateForHarvest6 64)
        (by simp [largePacketRows, nextStepRow, lookup_cons, hSize, hTy]) (by rw [hTy]; rfl)
    | 6, hTy =>
      exact hRow (.recirculateForHarvest7 68)
        (by simp [largePacketRows, nextStepRow, lookup_cons, hSize, hTy]) (by rw [hTy]; rfl)
    | 7, hTy => exact hFinal (lookup_append_miss (by simp [largePacketRows, nextStepRow, hTy]) _)
  | _ =>
    rw [← hTy]
    exact hFinal (lookup_append_miss (by simp [largePacketRows, nextStepRow, hTy]) _)

/-- **All recirculations of `next_step`.** A 256-byte packet is recirculated once, to be
harvested; a 1024-byte packet on its way from pipe to pipe. -/
theorem lookup_recirculation {alternate : Option PortId} {ingressPort : PortId}
    {hop : PacketType × PortId} {k : NextStepKey}
    (hAlt : k.useAlternateRecircPort = alternate.isSome)
    (h : (lookup .drop k nextStepEntries).recirculation alternate ingressPort = some hop) :
    k.packetSize = .mtu256 ∧ k.packetType = .consume 0 ∧ hop = (.harvest 7, 68) ∨
    k.packetSize = .mtu1024 ∧
      nextHop alternate ingressPort k.workerId k.packetType = some hop := by
  cases hSize : k.packetSize with
  | mtu128 | mtu512 =>
    have hDrop : lookup .drop k nextStepEntries = .drop := by
      simp [nextStepEntries, smallPacketRows, nextStepRow, lookup_cons, hSize]
    rw [hDrop] at h
    cases h
  | mtu256 =>
    by_cases hType : k.packetType = .consume 0
    · rw [lookup_consume0_256B hSize hType] at h
      refine .inl ⟨rfl, hType, ?_⟩
      split at h
      · exact (Option.some.inj h).symm
      split at h
      · cases h
      split at h
      · exact (Option.some.inj h).symm
      · cases h
    · rw [lookup_finalPass (.inl ⟨hSize, hType⟩), recirculation_finalPassRows] at h
      cases h
  | mtu1024 =>
    refine .inr ⟨rfl, ?_⟩
    by_cases hFirst : k.packetType = .consume 0
    · rw [lookup_consume0_1024B hSize hFirst] at h
      rw [hFirst]
      split at h
      · exact h
      · cases h
    by_cases hLast : k.packetType = .consume 3
    · rw [lookup_consume3_1024B hSize hLast] at h
      rw [hLast]
      split at h
      · exact h
      split at h
      · cases h
      split at h
      · exact h
      · cases h
    · rw [lookup_nextStepEntries_1024B hSize hFirst] at h
      exact recirculation_largePacketRows hAlt hSize ⟨hFirst, hLast⟩ h

end SwitchML
