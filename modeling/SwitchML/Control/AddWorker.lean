import SwitchML.Control.Connect

/-!
# SwitchML control plane — adding a worker

`Job.worker_add_roce` changes the state of three classes one after the other: the receive
table and the list of workers (`RDMAReceiver.add_entry`), the multicast group of the
replies (`PRE.worker_add`) and the two egress tables (`RDMASender.add_write_worker`). What
can go wrong is found out on the way: the port of the worker is looked up after the first
step, and the number of packets in a message after the second egress table is due.

* `RoceTables.workerAddRoce` — the call, with all that it changes; its multicast group and
  its queue pairs are those of `workerAddRoce` (`workerAddRoce_toControlPlane`);
* `add_worker_all_or_nothing_iff` — the arguments and states for which the call has all of
  its effects or none;
* `half_added_worker` — two calls that raise and leave a worker behind.

Operations on the tables succeed. What Python finds for the logarithm of the number of packets,
and what stands in a table for a number that its field has no room for, are parameters
(`Platform`).
-/

namespace SwitchML

-- ---------------------------------------------------------------------------
-- State
-- ---------------------------------------------------------------------------

/-- The arguments of `worker_add_roce`. -/
structure WorkerArgs where
  rank : ℤ
  count : ℤ
  mac : BitVec 48
  ip : BitVec 32
  rkey : BitVec 32
  packetSize : ℤ
  messageSize : ℤ
  qpnsAndPsns : List (BitVec 24 × BitVec 24)

namespace WorkerArgs

def rid (args : WorkerArgs) : ℕ := args.rank.toNat

def qpns (args : WorkerArgs) : List (BitVec 24) := args.qpnsAndPsns.map Prod.fst

def packetsPerMessage (args : WorkerArgs) : ℤ :=
  SwitchML.packetsPerMessage args.packetSize args.messageSize

end WorkerArgs

/-- What is configured for the switch itself. -/
structure SwitchAddress where
  switchIp : BitVec 32
  switchPartitionKey : BitVec 16
  switchmlWorkersMgid : MulticastGroupId

/-- The arguments of `fill_in_roce_write_fields`. -/
structure RoceWriteFields where
  destMac : BitVec 48
  destIp : BitVec 32
  baseAddr : BitVec 64
  rkey : BitVec 32
deriving DecidableEq, Repr

/-- The state of the control plane for RoCE workers. An entry of `receiveRoce` stands for
the rows of a worker, one for each opcode. -/
structure RoceTables extends ControlPlane where
  receiveRoce : List ReceiveEntry := []
  workerIds : List ℕ := []
  createRocePacket : ℕ → Option RoceWriteFields := fun _ => none

-- ---------------------------------------------------------------------------
-- `worker_add_roce`
-- ---------------------------------------------------------------------------

section Calls

-- the switch, and the `dev_port` of each configured address
variable (platform : Platform) (switch : SwitchAddress) (ports : BitVec 48 → Option ℕ)

/-- What `RDMAReceiver.add_entry` installs for a worker. -/
def SwitchAddress.receiveEntry (args : WorkerArgs) : ReceiveEntry where
  workerIp := args.ip
  switchIp := switch.switchIp
  switchPartitionKey := switch.switchPartitionKey
  workerRid := BitVec.ofNat 16 args.rid
  args := {
    mgid := switch.switchmlWorkersMgid
    workerType := .roceV2
    workerId := platform.store 16 args.rid
    numWorkers := platform.store 8 args.count
    workerBitmap := platform.store 32 ((1 <<< args.rid : ℕ) : ℤ)
    packetSize := PacketSize.ofBits (platform.store 2 args.packetSize) }

namespace RoceTables

/-- `RDMAReceiver.add_entry`. -/
def addEntry (s : RoceTables) (args : WorkerArgs) : RoceTables :=
  { s with
    workerIds := s.workerIds ++ [args.rid]
    receiveRoce := s.receiveRoce ++ [switch.receiveEntry platform args] }

/-- What `add_write_worker` installs in `create_roce_packet`. -/
def writeFields (args : WorkerArgs) : RoceWriteFields := ⟨args.mac, args.ip, 0, args.rkey⟩

/-- `RDMASender.add_write_worker`. -/
def addWriteWorker (s : RoceTables) (args : WorkerArgs) : RoceTables × Option ControlError :=
  let added := SwitchML.addWriteWorker platform args.packetSize args.messageSize args.qpns
  ({ s with
     createRocePacket := Function.update s.createRocePacket args.rid (some (writeFields args))
     sender := s.sender ++ added.1.map fun e => (args.rid, e) }, added.2)

/-- `Job.worker_add_roce`. -/
def workerAddRoce (s : RoceTables) (args : WorkerArgs) : RoceTables × Option ControlError :=
  if 32 < args.count then (s, none)
  -- the shift in `worker_mask`
  else if args.rank < 0 then (s, some .valueError)
  else
    let s := s.addEntry platform switch args
    match ports args.mac with
    | none => (s, some .unknownMac)
    | some devPort =>
      { s with pre := s.pre.workerAdd args.rid devPort }.addWriteWorker platform args

end RoceTables

-- ---------------------------------------------------------------------------
-- All or nothing
-- ---------------------------------------------------------------------------

/-- The multicast group has the worker, and the record has it for its port. -/
def Pre.HasWorker (s : Pre) (rid devPort : ℕ) : Prop :=
  (devPort, rid) ∈ s.rids ∧ s.nodes rid = some devPort ∧ rid ∈ s.group

/-- All tables have the worker, with an entry for each of its queue pairs. -/
structure RoceTables.HasWorker (s : RoceTables) (args : WorkerArgs) (devPort : ℕ) : Prop where
  receive : switch.receiveEntry platform args ∈ s.receiveRoce
  workerId : args.rid ∈ s.workerIds
  pre : s.pre.HasWorker args.rid devPort
  header : s.createRocePacket args.rid = some (RoceTables.writeFields args)
  queuePairs : ∀ i qpn, args.qpns[i]? = some qpn →
    ∃ e, platform.log2 args.packetsPerMessage.toNat = some e ∧
      (args.rid, ⟨i <<< (e + 1), senderMask args.packetsPerMessage.toNat, qpn⟩) ∈ s.sender

/-- A call that raises has changed nothing; one that returns, for a job that is not too
large, has added the worker on the port of its address. -/
def AllOrNothing (s : RoceTables) (args : WorkerArgs)
    (result : RoceTables × Option ControlError) : Prop :=
  match result.2 with
  | some _ => result.1 = s
  | none => args.count ≤ 32 →
    ∃ devPort ∈ ports args.mac, result.1.HasWorker platform switch args devPort

/-- There is a packet in a message, and a number to shift by if `add_write_worker` shifts. -/
def WorkerArgs.Sendable (args : WorkerArgs) : Prop :=
  0 < args.packetsPerMessage ∧
    (args.qpns = [] ∨ (platform.log2 args.packetsPerMessage.toNat).isSome = true)

end Calls

-- ---------------------------------------------------------------------------
-- The egress tables
-- ---------------------------------------------------------------------------

theorem mem_installEntries (shift : ℕ) (mask : PoolIndex) (index : ℕ) {qpns : List (BitVec 24)}
    {i : ℕ} {qpn : BitVec 24} (hi : qpns[i]? = some qpn) :
    ⟨(index + i) <<< shift, mask, qpn⟩ ∈ installEntries shift mask index qpns := by
  induction qpns generalizing index i with
  | nil => simp at hi
  | cons qpn' qpns ih =>
    unfold installEntries
    cases i with
    | zero =>
      rw [List.getElem?_cons_zero] at hi
      obtain rfl := Option.some.inj hi
      exact List.mem_cons_self
    | succ i =>
      rw [List.getElem?_cons_succ] at hi
      have hMem := ih (index + 1) hi
      rw [Nat.add_assoc, Nat.add_comm 1] at hMem
      exact List.mem_cons_of_mem _ hMem

variable {platform : Platform} {switch : SwitchAddress} {ports : BitVec 48 → Option ℕ}
  {s : RoceTables} {args : WorkerArgs}

theorem addWriteWorker_args :
    addWriteWorker platform args.packetSize args.messageSize args.qpns =
      if args.packetsPerMessage ≤ 0 then ([], some .valueError)
      else match platform.log2 args.packetsPerMessage.toNat with
        | none => ([], if args.qpns = [] then none else some .typeError)
        | some e =>
          (installEntries (e + 1) (senderMask args.packetsPerMessage.toNat) 0 args.qpns, none) :=
  rfl

theorem addWriteWorker_returns_iff :
    (addWriteWorker platform args.packetSize args.messageSize args.qpns).2 = none ↔
      args.Sendable platform := by
  rw [addWriteWorker_args, WorkerArgs.Sendable]
  by_cases hNone : args.packetsPerMessage ≤ 0
  · rw [if_pos hNone]
    exact iff_of_false (by simp) fun h => absurd h.1 (Int.not_lt.mpr hNone)
  · rw [if_neg hNone, and_iff_right (Int.not_le.mp hNone)]
    cases platform.log2 args.packetsPerMessage.toNat <;> simp

/-- Every queue pair of a call that returns has its entry. -/
theorem mem_addWriteWorker (h : args.Sendable platform) {i : ℕ} {qpn : BitVec 24}
    (hi : args.qpns[i]? = some qpn) :
    ∃ e, platform.log2 args.packetsPerMessage.toNat = some e ∧
      ⟨i <<< (e + 1), senderMask args.packetsPerMessage.toNat, qpn⟩ ∈
        (addWriteWorker platform args.packetSize args.messageSize args.qpns).1 := by
  have hSome : args.qpns ≠ [] := by
    intro hNil
    simp [hNil] at hi
  obtain ⟨hPos, hShift⟩ := h
  obtain ⟨e, hLog⟩ := Option.isSome_iff_exists.mp (hShift.resolve_left hSome)
  have hMem := mem_installEntries (e + 1) (senderMask args.packetsPerMessage.toNat) 0 hi
  rw [Nat.zero_add] at hMem
  refine ⟨e, hLog, ?_⟩
  rw [addWriteWorker_args, if_neg (Int.not_le.mpr hPos), hLog]
  exact hMem

-- ---------------------------------------------------------------------------
-- The call
-- ---------------------------------------------------------------------------

/-- After `worker_add`, the group has the worker unless its rank was taken for a port. -/
theorem Pre.hasWorker_workerAdd_iff (s : Pre) (rid devPort : ℕ) :
    (s.workerAdd rid devPort).HasWorker rid devPort ↔
      rid ∉ s.rids.map Prod.fst ∨ s.HasWorker rid devPort := by
  cases hKnown : s.rids.any fun x => decide (x.1 = rid) with
  | true =>
    have hMem : rid ∈ s.rids.map Prod.fst := by
      simpa [List.any_eq_true] using hKnown
    rw [workerAdd_known hKnown]
    simp [hMem]
  | false =>
    have hMem : rid ∉ s.rids.map Prod.fst := by
      intro hMem
      obtain ⟨x, hx, hEq⟩ := List.mem_map.mp hMem
      exact List.any_eq_false.mp hKnown x hx (decide_eq_true hEq)
    obtain ⟨hRids, hNodes, hGroup⟩ := workerAdd_new hKnown devPort
    refine iff_of_true ⟨?_, ?_, ?_⟩ (.inl hMem)
    · rw [hRids]
      exact List.mem_cons_self
    · rw [hNodes, Function.update_self]
    · rw [hGroup]
      exact Finset.mem_insert_self _ _

namespace RoceTables

/-- The group and the queue pairs are those of the model without the other tables. -/
theorem workerAddRoce_toControlPlane (h : 0 ≤ args.rank) {packetSize : PacketSize}
    {messageSize : ℕ} (hPacket : args.packetSize = packetSize.number)
    (hMessage : args.messageSize = messageSize) :
    ((s.workerAddRoce platform switch ports args).1.toControlPlane,
      (s.workerAddRoce platform switch ports args).2) =
      SwitchML.workerAddRoce platform ports s.toControlPlane {
        myRank := args.rid, jobSize := args.count.toNat, mac := args.mac
        packetSize, messageSize, qpns := args.qpns } := by
  unfold workerAddRoce SwitchML.workerAddRoce
  by_cases hCount : 32 < args.count
  · have hSize : 32 < args.count.toNat := by omega
    rw [if_pos hCount, if_pos hSize]
  · have hSize : ¬ 32 < args.count.toNat := by omega
    rw [if_neg hCount, if_neg hSize, if_neg (Int.not_lt.mpr h)]
    dsimp only
    cases ports args.mac with
    | none => rfl
    | some devPort =>
      dsimp only [addWriteWorker]
      rw [hPacket, hMessage]
      rfl

/-- The call behind its first checks. -/
theorem workerAddRoce_eq (hCount : ¬ 32 < args.count) (hRank : ¬ args.rank < 0) {devPort : ℕ}
    (hPort : ports args.mac = some devPort) :
    s.workerAddRoce platform switch ports args =
      addWriteWorker platform { s.addEntry platform switch args with
        pre := s.pre.workerAdd args.rid devPort } args := by
  unfold workerAddRoce
  rw [if_neg hCount, if_neg hRank, hPort]
  rfl

/-- Once the receive stage has the worker, a call that raises leaves it there. -/
theorem workerAddRoce_remembers (hCount : ¬ 32 < args.count) (hRank : ¬ args.rank < 0) :
    (s.workerAddRoce platform switch ports args).1.workerIds = s.workerIds ++ [args.rid] := by
  unfold workerAddRoce
  rw [if_neg hCount, if_neg hRank]
  dsimp only
  cases ports args.mac <;> rfl

/-- A call that returns has added the worker to all tables but the group. -/
theorem hasWorker_workerAddRoce_iff (hCount : ¬ 32 < args.count) (hRank : ¬ args.rank < 0)
    {devPort : ℕ} (hPort : ports args.mac = some devPort) (hSend : args.Sendable platform) :
    (s.workerAddRoce platform switch ports args).1.HasWorker platform switch args devPort ↔
      (s.pre.workerAdd args.rid devPort).HasWorker args.rid devPort := by
  rw [workerAddRoce_eq hCount hRank hPort]
  refine ⟨fun h => h.pre, fun h => ⟨?_, ?_, h, ?_, ?_⟩⟩
  · exact List.mem_append_right _ (List.mem_singleton_self _)
  · exact List.mem_append_right _ (List.mem_singleton_self _)
  · exact Function.update_self _ _ _
  · intro i qpn hi
    obtain ⟨e, hLog, hMem⟩ := mem_addWriteWorker hSend hi
    exact ⟨e, hLog, List.mem_append_right _ (List.mem_map_of_mem hMem)⟩

end RoceTables

/-- **All or nothing.** A call has all of its effects or none if and only if the job is too
large or the rank is negative, which is found out before anything is changed, or else nothing
goes wrong at all: the address of the worker is known, there is a packet in a message and the
logarithm of their number is an integer, if there are queue pairs, and the rank is not taken for
a port of the record. -/
theorem add_worker_all_or_nothing_iff (platform : Platform) (switch : SwitchAddress)
    (ports : BitVec 48 → Option ℕ) (s : RoceTables) (args : WorkerArgs) :
    AllOrNothing platform switch ports s args (s.workerAddRoce platform switch ports args) ↔
      32 < args.count ∨ args.rank < 0 ∨ ∃ devPort ∈ ports args.mac, args.Sendable platform ∧
        (args.rid ∉ s.pre.rids.map Prod.fst ∨ s.pre.HasWorker args.rid devPort) := by
  by_cases hCount : 32 < args.count
  · have hCall : s.workerAddRoce platform switch ports args = (s, none) := if_pos hCount
    rw [hCall]
    exact iff_of_true (fun hLe => absurd hCount (Int.not_lt.mpr hLe)) (.inl hCount)
  by_cases hRank : args.rank < 0
  · have hCall : s.workerAddRoce platform switch ports args = (s, some .valueError) := by
      unfold RoceTables.workerAddRoce
      rw [if_neg hCount, if_pos hRank]
    rw [hCall]
    exact iff_of_true rfl (.inr (.inl hRank))
  simp only [hCount, hRank, false_or]
  -- from here on a call that raises leaves the worker in the list of ids
  have hRaises : ∀ e, (s.workerAddRoce platform switch ports args).2 = some e →
      ¬ AllOrNothing platform switch ports s args (s.workerAddRoce platform switch ports args) := by
    intro e hError hSame
    rw [AllOrNothing, hError] at hSame
    have hIds : (s.workerAddRoce platform switch ports args).1.workerIds =
        s.workerIds ++ [args.rid] := RoceTables.workerAddRoce_remembers hCount hRank
    simp [hSame] at hIds
  cases hPort : ports args.mac with
  | none =>
    refine iff_of_false (hRaises .unknownMac ?_) (by simp)
    unfold RoceTables.workerAddRoce
    rw [if_neg hCount, if_neg hRank, hPort]
  | some devPort =>
    have hResult : (s.workerAddRoce platform switch ports args).2 =
        (addWriteWorker platform args.packetSize args.messageSize args.qpns).2 := by
      rw [RoceTables.workerAddRoce_eq hCount hRank hPort]
      rfl
    simp only [Option.mem_some_iff, exists_eq_left']
    by_cases hSend : args.Sendable platform
    · rw [addWriteWorker_returns_iff.mpr hSend] at hResult
      rw [AllOrNothing, hResult]
      simp only [Int.not_lt.mp hCount, forall_const, hPort, Option.mem_some_iff, exists_eq_left',
        hSend, true_and]
      rw [RoceTables.hasWorker_workerAddRoce_iff hCount hRank hPort hSend]
      exact s.pre.hasWorker_workerAdd_iff args.rid devPort
    · refine iff_of_false ?_ fun h => hSend h.1
      obtain ⟨e, hError⟩ := Option.ne_none_iff_exists'.mp
        (fun hNone => hSend (addWriteWorker_returns_iff.mp hNone))
      exact hRaises e (hResult.trans hError)

/-- Two calls that raise. The address of the first worker is unknown: the receive stage has
the worker. The messages of the second have three packets: all tables have the worker but
that of the queue pairs. -/
theorem half_added_worker :
    let switch : SwitchAddress := ⟨2, 0xffff, 0x1234⟩
    let ports : BitVec 48 → Option ℕ := fun mac => if mac = 1 then some 40 else none
    let s : RoceTables := { pre := { rids := [], nodes := fun _ => none, group := ∅ } }
    let stranger : WorkerArgs := ⟨0, 1, 7, 3, 0, 1, 1024, [(0x11, 0)]⟩
    let odd : WorkerArgs := ⟨0, 1, 1, 3, 0, 1, 768, [(0x11, 0)]⟩
    let a := s.workerAddRoce exactPlatform switch ports stranger
    let b := s.workerAddRoce exactPlatform switch ports odd
    (a.2 = some .unknownMac ∧ a.1.receiveRoce.length = 1 ∧ a.1.workerIds = [0] ∧
      ¬ AllOrNothing exactPlatform switch ports s stranger a) ∧
    b.2 = some .typeError ∧ b.1.receiveRoce.length = 1 ∧ b.1.workerIds = [0] ∧
      b.1.pre.group = {0} ∧ (b.1.createRocePacket 0).isSome ∧ b.1.sender.length = 0 ∧
      ¬ AllOrNothing exactPlatform switch ports s odd b := by
  intro switch ports s stranger odd a b
  have ha : a.2 = some .unknownMac ∧ a.1.receiveRoce.length = 1 ∧ a.1.workerIds = [0] := by
    decide +kernel
  have hb : b.2 = some .typeError ∧ b.1.receiveRoce.length = 1 ∧ b.1.workerIds = [0] ∧
      b.1.pre.group = {0} ∧ (b.1.createRocePacket 0).isSome ∧ b.1.sender.length = 0 := by
    decide +kernel
  obtain ⟨ha₁, ha₂, ha₃⟩ := ha
  obtain ⟨hb₁, hb₂, hb₃, hb₄, hb₅, hb₆⟩ := hb
  refine ⟨⟨ha₁, ha₂, ha₃, fun h => ?_⟩, hb₁, hb₂, hb₃, hb₄, hb₅, hb₆, fun h => ?_⟩
  · rw [AllOrNothing, ha₁] at h
    rw [h] at ha₃
    cases ha₃
  · rw [AllOrNothing, hb₁] at h
    rw [h] at hb₃
    cases hb₃

end SwitchML
