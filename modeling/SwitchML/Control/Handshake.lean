import SwitchML.Control.AddWorker
import SwitchML.Lib.Barriers

/-!
# SwitchML — setting up a job

The workers of a job connect to the switch at the same time. `exchange_connection_info` runs
on each of them: rank 0 sends its request first, which clears what earlier jobs left behind,
and then enters a barrier that all others wait at before they send theirs; at a second
barrier everybody waits until all requests were answered. The control plane serves the
requests one after the other, in whatever order they come. A worker whose request fails
exits, and arrives at no barrier.

The job id, which rank 0 makes up and broadcasts first, is left out: nobody reads it.

* `handshake` — the program of the workers, cut up by its barriers, and what a request does;
* `RoceTables.Complete` — the tables have the workers of the job, and nothing else;
* `handshake_sets_up` — in whatever order the workers take their steps, as soon as one of
  them is behind the second barrier the tables are complete, and each worker has its answer;
* `handshake_finishes` — if the control plane can serve every request, all workers get that
  far, as long as each gets a turn now and then.

Both are about jobs of at most 32 workers, since `worker_add_roce` adds nothing for a larger
one, whose ranks are not the numbers of their ports, and about tables without nodes in the
multicast group that the record of the group does not have. Otherwise workers of the job are
left out of the group, or those of earlier jobs stay in it (`member_skipped`).
-/

namespace SwitchML

-- ---------------------------------------------------------------------------
-- `RDMAConnect`
-- ---------------------------------------------------------------------------

/-- `RDMAConnectRequest`. -/
structure RoceRequest where
  myRank : ℤ
  jobSize : ℤ
  mac : BitVec 48
  ipv4 : BitVec 32
  rkey : BitVec 32
  packetSize : PacketSize
  messageSize : BitVec 32
  qpns : List (BitVec 24)
  psns : List (BitVec 24)

/-- `RDMAConnectResponse`. -/
structure RoceResponse where
  macs : List (BitVec 48)
  ipv4s : List (BitVec 32)
  rkeys : List (BitVec 32)
  qpns : List ℕ
  psns : List ℕ
deriving DecidableEq, Repr

/-- The arguments of `worker_add_roce` for a request. -/
def RoceRequest.args (req : RoceRequest) : WorkerArgs where
  rank := req.myRank
  count := req.jobSize
  mac := req.mac
  ip := req.ipv4
  rkey := req.rkey
  packetSize := req.packetSize.number
  messageSize := req.messageSize.toNat
  qpnsAndPsns := req.qpns.zip req.psns

/-- The switch, with its Ethernet address. -/
structure SwitchSetup extends SwitchAddress where
  switchMac : BitVec 48

/-- What the control plane answers. The key of the worker is sent back, and the sequence
numbers do not matter. -/
def RoceRequest.response (setup : SwitchSetup) (req : RoceRequest) : RoceResponse where
  macs := [setup.switchMac]
  ipv4s := [setup.switchIp]
  rkeys := [req.rkey]
  qpns := (List.range req.qpns.length).map (switchQpn req.myRank.toNat)
  psns := List.range req.qpns.length

/-- `Job.worker_clear_all`, the tables of it. -/
def RoceTables.workerClearAll (s : RoceTables) : RoceTables where
  pre := s.pre.workerClearAll

section Connect

-- as for `workerAddRoce`
variable (platform : Platform) (setup : SwitchSetup) (ports : BitVec 48 → Option ℕ)

namespace RoceTables

/-- `RDMAConnect`. -/
def rdmaConnect (s : RoceTables) (req : RoceRequest) :
    RoceTables × Except ControlError RoceResponse :=
  let s := if req.myRank = 0 then s.workerClearAll else s
  let result := s.workerAddRoce platform setup.toSwitchAddress ports req.args
  (result.1,
    match result.2 with
    | some e => .error e
    | none => .ok (req.response setup))

/-- The entries of `fill_in_qpn_and_psn` for a worker. -/
def queuePairEntries (args : WorkerArgs) : List (ℕ × SenderEntry) :=
  (SwitchML.addWriteWorker platform args.packetSize args.messageSize args.qpns).1.map
    fun e => (args.rid, e)

/-- The tables with one more worker. -/
def withWorker (s : RoceTables) (args : WorkerArgs) : RoceTables where
  pre := s.pre.workerAdd args.rid ((ports args.mac).getD 0)
  sender := s.sender ++ queuePairEntries platform args
  receiveRoce := s.receiveRoce ++ [setup.receiveEntry platform args]
  workerIds := s.workerIds ++ [args.rid]
  createRocePacket := Function.update s.createRocePacket args.rid (some (writeFields args))

end RoceTables

/-- The control plane can serve the request: the address of the worker is known, and
`add_write_worker` succeeds. -/
structure RoceRequest.Servable (req : RoceRequest) : Prop where
  known : (ports req.mac).isSome
  sendable : req.args.Sendable platform

-- ---------------------------------------------------------------------------
-- `exchange_connection_info`
-- ---------------------------------------------------------------------------

/-- A global identifier, with the byte `raw[0]` first. -/
abbrev Gid := BitVec 128

/-- `ipv4_to_gid`. -/
def ipv4ToGid (ip : BitVec 32) : Gid := 0#80 ++ 0xffff#16 ++ ip

/-- `mac_to_gid`. The prefix `0x80fe` stands in memory with its low byte first. -/
def macToGid (mac : BitVec 48) : Gid :=
  0xfe80#16 ++ 0#48 ++ (mac.extractLsb' 40 8 ^^^ 2#8) ++ mac.extractLsb' 32 8 ++
    mac.extractLsb' 24 8 ++ 0xff#8 ++ 0xfe#8 ++ mac.extractLsb' 16 8 ++ mac.extractLsb' 8 8 ++
    mac.extractLsb' 0 8

/-- What a worker knows of itself: the addresses of its endpoint, the key of its memory, the
flags and the numbers of its queue pairs. -/
structure WorkerSetup where
  mac : BitVec 48
  ipv4 : BitVec 32
  gidIndex : ℕ
  rkey : BitVec 32
  packetSize : PacketSize
  messageSize : BitVec 32
  qpNums : List (BitVec 24)

/-- The request of a worker. -/
def WorkerSetup.request (w : WorkerSetup) (rank size : ℕ) : RoceRequest where
  myRank := rank
  jobSize := size
  mac := w.mac
  ipv4 := w.ipv4
  rkey := w.rkey
  packetSize := w.packetSize
  messageSize := w.messageSize
  qpns := w.qpNums
  psns := w.qpNums.map (· / 2)

/-- The other end of a queue pair. -/
structure Neighbor where
  gid : Gid
  rkey : BitVec 32
  qpn : ℕ
  psn : ℕ
deriving DecidableEq, Repr

/-- The loop that copies the response to the neighbor arrays. None if it reads a field that is
not there. -/
def WorkerSetup.neighbors (w : WorkerSetup) (response : RoceResponse) : Option (List Neighbor) :=
  (List.range w.qpNums.length).mapM fun i => do
    let gid ←
      if 2 ≤ w.gidIndex then (response.ipv4s[i % response.ipv4s.length]?).map ipv4ToGid
      else (response.macs[i % response.macs.length]?).map macToGid
    let rkey ← response.rkeys[i % response.rkeys.length]?
    let qpn ← response.qpns[i]?
    let psn ← response.psns[i]?
    some ⟨gid, rkey, qpn, psn⟩

/-- What the steps of the workers change. -/
structure Setting (n : ℕ) where
  tables : RoceTables
  responses : Fin n → Option RoceResponse := fun _ => none
  neighbors : Fin n → Option (List Neighbor) := fun _ => none

inductive HandshakeAct where
  | connect
  | copy
deriving DecidableEq, Repr

/-- `exchange_connection_info` on each of the workers. -/
def handshake {n : ℕ} (workers : Fin n → WorkerSetup) :
    Barriers.Program (Fin n) HandshakeAct (Setting n) where
  segment r
    -- the first worker clears the state of the switch before the others connect
    | 0 => if r.val = 0 then [.connect] else []
    | 1 => if r.val = 0 then [] else [.connect]
    | 2 => [.copy]
    | _ => []
  exec r act x :=
    match act with
    | .connect =>
      let result := x.tables.rdmaConnect platform setup ports ((workers r).request r n)
      match result.2 with
      | .ok response =>
        ({ x with
           tables := result.1
           responses := Function.update x.responses r (some response) }, true)
      | .error _ => ({ x with tables := result.1 }, false)
    | .copy =>
      match (x.responses r).bind (workers r).neighbors with
      | some neighbors =>
        ({ x with neighbors := Function.update x.neighbors r (some neighbors) }, true)
      | none => (x, false)

/-- The tables have the workers of a job, and nothing else. -/
structure RoceTables.Complete {n : ℕ} (workers : Fin n → WorkerSetup) (s : RoceTables) :
    Prop where
  servable : ∀ r, ((workers r).request r n).Servable platform ports
  receiveRoce : s.receiveRoce.Perm
    (List.ofFn fun r => setup.receiveEntry platform ((workers r).request r n).args)
  group : s.pre.group = Finset.range n
  nodes : ∀ r : Fin n, s.pre.nodes r = ports (workers r).mac
  createRocePacket : ∀ r : Fin n,
    s.createRocePacket r = some (writeFields ((workers r).request r n).args)
  createRocePacket_none : ∀ k, n ≤ k → s.createRocePacket k = none
  sender : s.sender.Perm
    ((List.finRange n).flatMap fun r => queuePairEntries platform ((workers r).request r n).args)

end Connect

-- ---------------------------------------------------------------------------
-- One request
-- ---------------------------------------------------------------------------

variable {platform : Platform} {setup : SwitchSetup} {ports : BitVec 48 → Option ℕ}

namespace RoceTables

section Request

variable (setup) (s : RoceTables) {req : RoceRequest} (hSize : req.jobSize ≤ 32)
  (hRank : 0 ≤ req.myRank)

include hSize hRank

theorem rdmaConnect_served (h : req.Servable platform ports) :
    s.rdmaConnect platform setup ports req =
      ((if req.myRank = 0 then s.workerClearAll else s).withWorker platform setup ports req.args,
        .ok (req.response setup)) := by
  obtain ⟨devPort, hPort⟩ := Option.isSome_iff_exists.mp h.known
  have hReturns := addWriteWorker_returns_iff.mpr h.sendable
  have hCount : ¬ 32 < req.args.count := Int.not_lt.mpr hSize
  have hNonneg : ¬ req.args.rank < 0 := Int.not_lt.mpr hRank
  have hMac : ports req.args.mac = some devPort := hPort
  unfold rdmaConnect
  dsimp only
  rw [workerAddRoce_eq hCount hNonneg hMac]
  unfold addWriteWorker withWorker
  dsimp only
  rw [hReturns, hMac]
  rfl

theorem rdmaConnect_refused (h : ¬ req.Servable platform ports) :
    ∃ e, (s.rdmaConnect platform setup ports req).2 = .error e := by
  have hCount : ¬ 32 < req.args.count := Int.not_lt.mpr hSize
  have hNonneg : ¬ req.args.rank < 0 := Int.not_lt.mpr hRank
  unfold rdmaConnect
  dsimp only
  generalize (if req.myRank = 0 then s.workerClearAll else s) = s'
  cases hPort : ports req.args.mac with
  | none =>
    have hUnknown : (s'.workerAddRoce platform setup.toSwitchAddress ports req.args).2 =
        some .unknownMac := by
      unfold workerAddRoce
      rw [if_neg hCount, if_neg hNonneg, hPort]
    exact ⟨.unknownMac, by rw [hUnknown]⟩
  | some devPort =>
    have hKnown : (ports req.mac).isSome := Option.isSome_iff_exists.mpr ⟨devPort, hPort⟩
    obtain ⟨e, he⟩ := Option.ne_none_iff_exists'.mp
      fun hNone => h ⟨hKnown, addWriteWorker_returns_iff.mp hNone⟩
    refine ⟨e, ?_⟩
    rw [workerAddRoce_eq hCount hNonneg hPort]
    unfold addWriteWorker
    dsimp only
    rw [he]

end Request

-- ---------------------------------------------------------------------------
-- All requests
-- ---------------------------------------------------------------------------

variable (platform setup ports) in
theorem foldl_withWorker (s : RoceTables) (added : List WorkerArgs) :
    let t := added.foldl (withWorker platform setup ports) s
    t.pre = s.pre.workersAdd (added.map fun a => (a.rid, (ports a.mac).getD 0)) ∧
      t.sender = s.sender ++ added.flatMap (queuePairEntries platform) ∧
      t.receiveRoce = s.receiveRoce ++ added.map (setup.receiveEntry platform):= by
  induction added generalizing s with
  | nil => simp [Pre.workersAdd]
  | cons a added ih =>
    obtain ⟨hPre, hSender, hReceive⟩ := ih (s.withWorker platform setup ports a)
    refine ⟨hPre, hSender.trans ?_, hReceive.trans ?_⟩
    · simp [withWorker]
    · simp [withWorker]

variable (platform setup ports) in
/-- The headers for each worker are its own, as each has a rank of its own. -/
theorem foldl_withWorker_header (s : RoceTables) {added : List WorkerArgs}
    (hNodup : (added.map WorkerArgs.rid).Nodup) :
    let t := added.foldl (withWorker platform setup ports) s
    (∀ a ∈ added, t.createRocePacket a.rid = some (writeFields a)) ∧
      ∀ k, k ∉ added.map WorkerArgs.rid → t.createRocePacket k = s.createRocePacket k := by
  induction added generalizing s with
  | nil => simp
  | cons a added ih =>
    rw [List.map_cons, List.nodup_cons] at hNodup
    obtain ⟨hIn, hOut⟩ := ih (s.withWorker platform setup ports a) hNodup.2
    refine ⟨fun b hb => ?_, fun k hk => ?_⟩
    · rcases List.mem_cons.mp hb with rfl | hb
      · exact (hOut b.rid hNodup.1).trans (Function.update_self ..)
      · exact hIn b hb
    · rw [List.map_cons, List.mem_cons, not_or] at hk
      exact (hOut k hk.2).trans (Function.update_of_ne hk.1 ..)

end RoceTables

/-- If no rank is the number of a port, all workers join the group. -/
theorem joined_eq_self {workers : List (ℕ × ℕ)} (h : ∀ x ∈ workers, ∀ y ∈ workers, y.2 ≠ x.1) :
    joined workers = workers := by
  induction workers using List.reverseRecOn with
  | nil => rfl
  | append_singleton workers x ih =>
    have hBefore := ih fun y hy z hz =>
      h y (List.mem_append_left _ hy) z (List.mem_append_left _ hz)
    have hNone : (workers.any fun y => decide (y.2 = x.1)) = false := by
      refine List.any_eq_false.mpr fun y hy hEq => ?_
      exact h x (by simp) y (List.mem_append_left _ hy) (of_decide_eq_true hEq)
    rw [joined_snoc, hBefore, hNone, if_neg Bool.false_ne_true]

section Job

variable {n : ℕ} {workers : Fin n → WorkerSetup}

/-- The workers are added one after the other to tables that were cleared. -/
theorem complete_of_order (s : RoceTables) (hBefore : s.pre.Recorded)
    (hApart : ∀ r r' : Fin n, ports (workers r').mac ≠ some r.val)
    (hServable : ∀ r, ((workers r).request r n).Servable platform ports) {order : List (Fin n)}
    (hOrder : order.Perm (List.finRange n)) :
    (order.foldl (fun t r => t.withWorker platform setup ports ((workers r).request r n).args)
      s.workerClearAll).Complete platform setup ports workers := by
  set args : Fin n → WorkerArgs := fun r => ((workers r).request r n).args
  have hRid : ∀ r, (args r).rid = r := fun r => Int.toNat_natCast r
  have hPort : ∀ r, ports (workers r).mac = some ((ports (args r).mac).getD 0) := by
    intro r
    obtain ⟨devPort, hPort⟩ := Option.isSome_iff_exists.mp (hServable r).known
    have hMac : ports (args r).mac = some devPort := hPort
    rw [hMac]
    exact hPort
  have hMem : ∀ r, r ∈ order := fun r => hOrder.mem_iff.mpr (List.mem_finRange r)
  have hRids : (order.map args).map WorkerArgs.rid = order.map Fin.val := by
    rw [List.map_map]
    exact List.map_congr_left fun r _ => hRid r
  have hNodup : (order.map Fin.val).Nodup :=
    (hOrder.nodup_iff.mpr (List.nodup_finRange n)).map Fin.val_injective
  rw [← List.foldl_map]
  obtain ⟨hPre, hSender, hReceive⟩ :=
    RoceTables.foldl_withWorker platform setup ports s.workerClearAll (order.map args)
  obtain ⟨hIn, hOut⟩ :=
    RoceTables.foldl_withWorker_header platform setup ports s.workerClearAll (hRids ▸ hNodup)
  -- the group: nobody is taken for a member already
  obtain ⟨members, hMembers⟩ : ∃ members : List (ℕ × ℕ),
      members = order.map fun r => (r.val, (ports (args r).mac).getD 0) := ⟨_, rfl⟩
  have hAdded : (order.map args).map (fun a => (a.rid, (ports a.mac).getD 0)) = members := by
    rw [hMembers, List.map_map]
    exact List.map_congr_left fun r _ => Prod.ext (hRid r) rfl
  have hJoined : joined members = members := by
    refine joined_eq_self fun x hx y hy hEq => ?_
    rw [hMembers] at hx hy
    obtain ⟨r, -, rfl⟩ := List.mem_map.mp hx
    obtain ⟨r', -, rfl⟩ := List.mem_map.mp hy
    exact hApart r r' ((hPort r').trans (congrArg some hEq))
  have hRanks : members.map Prod.fst = order.map Fin.val := by
    rw [hMembers, List.map_map]
    rfl
  have hEmpty : s.pre.workerClearAll.rids = [] := s.pre.workerClearAll_eq.1
  have hGroup := (Pre.workersAdd_eq hEmpty members).2
  have hNodes := (Pre.workersAdd_nodes hEmpty (hRanks ▸ hNodup)).1
  rw [hJoined] at hGroup hNodes
  rw [hAdded] at hPre
  refine ⟨hServable, ?_, ?_, fun r => ?_, fun r => ?_, fun k hk => ?_, ?_⟩
  · rw [hReceive, List.ofFn_eq_map, List.map_map]
    exact hOrder.map _
  · rw [hPre]
    refine hGroup.trans ?_
    rw [hRanks, hBefore.clears]
    ext k
    simp [hMem, Fin.exists_iff]
  · rw [hPre, hPort r]
    exact hNodes (r.val, (ports (args r).mac).getD 0)
      (hMembers ▸ List.mem_map_of_mem (hMem r))
  · rw [← hRid r]
    exact hIn _ (List.mem_map_of_mem (hMem r))
  · rw [hOut k]
    · rfl
    · rw [hRids]
      intro hTaken
      obtain ⟨r, -, rfl⟩ := List.mem_map.mp hTaken
      exact absurd r.isLt (Nat.not_lt.mpr hk)
  · rw [hSender, List.flatMap_map]
    exact hOrder.flatMap_right _

-- ---------------------------------------------------------------------------
-- The steps of the workers
-- ---------------------------------------------------------------------------

/-- The neighbor arrays of a worker: all queue pairs lead to the switch, each to one of its
own there. -/
def WorkerSetup.switchNeighbors (setup : SwitchSetup) (w : WorkerSetup) (rank : ℕ) :
    List Neighbor :=
  (List.range w.qpNums.length).map fun i => {
    gid := if 2 ≤ w.gidIndex then ipv4ToGid setup.switchIp else macToGid setup.switchMac
    rkey := w.rkey
    qpn := switchQpn rank i
    psn := i }

theorem mapM_some_of_forall {α β : Type*} {f : α → Option β} {g : α → β} {l : List α}
    (h : ∀ a ∈ l, f a = some (g a)) : l.mapM f = some (l.map g) := by
  induction l with
  | nil => rfl
  | cons a l ih =>
    rw [List.mapM_cons, h a List.mem_cons_self, ih fun b hb => h b (List.mem_cons_of_mem _ hb)]
    rfl

/-- The answer has everything that the loop reads. -/
theorem neighbors_response (w : WorkerSetup) (rank size : ℕ) :
    w.neighbors ((w.request rank size).response setup) = some (w.switchNeighbors setup rank) := by
  refine mapM_some_of_forall fun i hi => ?_
  have hLt := List.mem_range.mp hi
  by_cases hGid : 2 ≤ w.gidIndex <;>
    simp [RoceRequest.response, WorkerSetup.request, hGid, hLt, Nat.mod_one]

variable (platform setup ports workers) in
/-- A request that was served. -/
def Setting.connected (x : Setting n) (r : Fin n) : Setting n :=
  { x with
    tables := (if r.val = 0 then x.tables.workerClearAll else x.tables).withWorker platform setup
      ports ((workers r).request r n).args
    responses := Function.update x.responses r
      (some (((workers r).request r n).response setup)) }

section Acts

variable (hn : n ≤ 32) (x : Setting n) (r : Fin n)

include hn

theorem exec_connect_served (h : ((workers r).request r n).Servable platform ports) :
    (handshake platform setup ports workers).exec r .connect x =
      (x.connected platform setup ports workers r, true) := by
  have hSize : ((workers r).request r n).jobSize ≤ 32 := Int.ofNat_le.mpr hn
  have hRank : 0 ≤ ((workers r).request r n).myRank := Int.natCast_nonneg _
  have hZero : ((workers r).request r n).myRank = 0 ↔ r.val = 0 := Int.natCast_eq_zero
  unfold handshake
  dsimp only
  rw [RoceTables.rdmaConnect_served setup x.tables hSize hRank h]
  simp only [Setting.connected, hZero]

variable (setup) in
/-- Only requests that can be served are answered. -/
theorem servable_of_exec
    (h : ((handshake platform setup ports workers).exec r .connect x).2 = true) :
    ((workers r).request r n).Servable platform ports := by
  have hSize : ((workers r).request r n).jobSize ≤ 32 := Int.ofNat_le.mpr hn
  have hRank : 0 ≤ ((workers r).request r n).myRank := Int.natCast_nonneg _
  by_contra hNot
  obtain ⟨e, he⟩ := RoceTables.rdmaConnect_refused setup x.tables hSize hRank hNot
  unfold handshake at h
  dsimp only at h
  rw [he] at h
  cases h

end Acts

variable (setup workers) in
/-- A worker has copied its answer. -/
def Setting.copied (x : Setting n) (r : Fin n) : Setting n :=
  { x with
    neighbors := Function.update x.neighbors r (some ((workers r).switchNeighbors setup r)) }

theorem exec_copy {x : Setting n} {r : Fin n}
    (h : x.responses r = some (((workers r).request r n).response setup)) :
    (handshake platform setup ports workers).exec r .copy x = (x.copied setup workers r, true) := by
  unfold handshake
  dsimp only
  rw [h, Option.bind_some, neighbors_response]
  rfl

-- ---------------------------------------------------------------------------
-- Runs
-- ---------------------------------------------------------------------------

section Runs

variable {x : Setting n} {trace : List (Barriers.Event (Fin n) HandshakeAct)}

/-- Everyone who connected was served, and has its answer. -/
theorem connects_run (hn : n ≤ 32)
    (hTrue : History.Throughout (handshake platform setup ports workers).effect
      (handshake platform setup ports workers).Truthful x trace)
    (hActs : ∀ e ∈ trace, e.act = .connect ∧ e.ok = true) :
    let y := trace.foldl (handshake platform setup ports workers).effect x
    (∀ e ∈ trace, ((workers e.process).request e.process n).Servable platform ports) ∧
      y.tables = (trace.map Barriers.Event.process).foldl (fun t r =>
        (if r.val = 0 then t.workerClearAll else t).withWorker platform setup ports
          ((workers r).request r n).args) x.tables ∧
      ∀ r, r ∈ trace.map Barriers.Event.process ∨
        x.responses r = some (((workers r).request r n).response setup) →
        y.responses r = some (((workers r).request r n).response setup) := by
  induction trace generalizing x with
  | nil => simp
  | cons e trace ih =>
    obtain ⟨hAct, hOk⟩ := hActs e List.mem_cons_self
    obtain ⟨hHere, hLater⟩ := hTrue
    have hServed : ((workers e.process).request e.process n).Servable platform ports := by
      refine servable_of_exec setup hn x e.process ?_
      rw [Barriers.Program.Truthful, hAct, hOk] at hHere
      exact hHere.symm
    have hEffect : (handshake platform setup ports workers).effect x e =
        x.connected platform setup ports workers e.process := by
      rw [Barriers.Program.effect, hAct, exec_connect_served hn x e.process hServed]
    rw [hEffect] at hLater
    obtain ⟨hServable, hTables, hAnswers⟩ :=
      ih hLater fun e' he' => hActs e' (List.mem_cons_of_mem _ he')
    rw [List.foldl_cons, hEffect]
    refine ⟨List.forall_mem_cons.mpr ⟨hServed, hServable⟩, hTables, fun r hr => hAnswers r ?_⟩
    by_cases hSame : r = e.process
    · subst hSame
      exact .inr (Function.update_self ..)
    · refine hr.imp (fun hMem => ?_) fun hBefore => ?_
      · exact (List.mem_cons.mp hMem).resolve_left hSame
      · exact (Function.update_of_ne hSame ..).trans hBefore

variable (platform ports) in
/-- Who copies its answer changes nothing else. -/
theorem copies_run (hActs : ∀ e ∈ trace, e.act = .copy)
    (hAnswers : ∀ r, x.responses r = some (((workers r).request r n).response setup)) :
    let y := trace.foldl (handshake platform setup ports workers).effect x
    y.tables = x.tables ∧ y.responses = x.responses ∧
      ∀ r, r ∈ trace.map Barriers.Event.process ∨
        x.neighbors r = some ((workers r).switchNeighbors setup r) →
        y.neighbors r = some ((workers r).switchNeighbors setup r) := by
  induction trace generalizing x with
  | nil => simp
  | cons e trace ih =>
    have hEffect : (handshake platform setup ports workers).effect x e =
        x.copied setup workers e.process := by
      rw [Barriers.Program.effect, hActs e List.mem_cons_self, exec_copy (hAnswers e.process)]
    rw [List.foldl_cons, hEffect]
    obtain ⟨hTables, hResponses, hNeighbors⟩ := ih (x := x.copied setup workers e.process)
      (fun e' he' => hActs e' (List.mem_cons_of_mem _ he')) hAnswers
    refine ⟨hTables, hResponses, fun r hr => hNeighbors r ?_⟩
    by_cases hSame : r = e.process
    · subst hSame
      exact .inr (Function.update_self ..)
    · refine hr.imp (fun hMem => ?_) fun hBefore => ?_
      · exact (List.mem_cons.mp hMem).resolve_left hSame
      · exact (Function.update_of_ne hSame ..).trans hBefore

end Runs

-- ---------------------------------------------------------------------------
-- Schedules
-- ---------------------------------------------------------------------------

section Schedules

variable {x : Setting n} {st : Barriers.State (Fin n) HandshakeAct (Setting n)} {r : Fin n}

theorem mem_segment {r : Fin n} {k : ℕ} {a : HandshakeAct}
    (h : a ∈ (handshake platform setup ports workers).segment r k) :
    a = .connect ∧ (k = 0 ∧ r.val = 0 ∨ k = 1 ∧ r.val ≠ 0) ∨ a = .copy ∧ k = 2 := by
  match k with
  | 0 | 1 => by_cases hr : r.val = 0 <;> simp_all [handshake]
  | 2 => exact .inr ⟨List.mem_singleton.mp h, rfl⟩
  | k + 3 => exact absurd h List.not_mem_nil

/-- Everyone connects once, and rank 0 first. -/
theorem order_of_passed (h : Barriers.Inv (handshake platform setup ports workers) x st)
    (hr : 1 < st.passed r) :
    let order := (st.slice 0 ++ st.slice 1).map Barriers.Event.process
    order.Perm (List.finRange n) ∧
      ∃ first rest, order = first :: rest ∧ first.val = 0 ∧ ∀ r' ∈ rest, r'.val ≠ 0 := by
  intro order
  have hPerm : order.Perm (List.finRange n) := by
    refine List.perm_iff_count.mpr fun j => ?_
    have hFirst := congrArg List.length (h.acts_slice (Nat.lt_trans Nat.zero_lt_one hr) j)
    have hSecond := congrArg List.length (h.acts_slice hr j)
    rw [List.length_map] at hFirst hSecond
    rw [List.count_eq_one_of_mem (List.nodup_finRange n) (List.mem_finRange j), List.count,
      List.countP_map, List.countP_eq_length_filter, List.filter_append, List.length_append]
    refine (congrArg₂ (· + ·) hFirst hSecond).trans ?_
    by_cases hj : j.val = 0 <;> simp [handshake, hj]
  refine ⟨hPerm, ?_⟩
  have hZero : ∀ e ∈ st.slice 0, e.process.val = 0 := by
    intro e he
    obtain ⟨hMem, hAt⟩ := List.mem_filter.mp he
    have hAct := h.act_mem hMem
    rw [of_decide_eq_true hAt] at hAct
    rcases mem_segment hAct with ⟨-, ⟨-, hEq⟩ | ⟨hNo, -⟩⟩ | ⟨-, hNo⟩
    · exact hEq
    · cases hNo
    · cases hNo
  -- rank 0 has connected
  obtain ⟨e, rest, hSlice⟩ : ∃ e rest, st.slice 0 = e :: rest := by
    refine List.exists_cons_of_ne_nil fun hNil => ?_
    have hFirst := h.acts_slice (Nat.lt_trans Nat.zero_lt_one hr) ⟨0, r.pos⟩
    rw [hNil] at hFirst
    simp [handshake] at hFirst
  refine ⟨e.process, (rest ++ st.slice 1).map Barriers.Event.process, ?_, ?_, fun r' hr' hEq => ?_⟩
  · simp [order, hSlice]
  · exact hZero e (hSlice ▸ List.mem_cons_self)
  · have hNodup := hPerm.nodup_iff.mpr (List.nodup_finRange n)
    have hOrder : order = e.process :: (rest ++ st.slice 1).map Barriers.Event.process := by
      simp [order, hSlice]
    rw [hOrder, List.nodup_cons] at hNodup
    have hSame : e.process = r' :=
      Fin.ext ((hZero e (hSlice ▸ List.mem_cons_self)).trans hEq.symm)
    exact hNodup.1 (hSame ▸ hr')

/-- With rank 0 first, the tables are cleared once, before all others. -/
theorem foldl_clear_first (s : RoceTables) {first : Fin n} {rest : List (Fin n)}
    (hFirst : first.val = 0) (hRest : ∀ r ∈ rest, r.val ≠ 0) :
    (first :: rest).foldl (fun t r =>
        (if r.val = 0 then t.workerClearAll else t).withWorker platform setup ports
          ((workers r).request r n).args) s =
      (first :: rest).foldl (fun t r => t.withWorker platform setup ports
        ((workers r).request r n).args) s.workerClearAll := by
  rw [List.foldl_cons, List.foldl_cons, if_pos hFirst]
  refine List.foldl_ext _ _ _ fun t r hr => ?_
  rw [if_neg (hRest r hr)]

/-- **Behind the second barrier.** -/
theorem setting_of_passed (hn : n ≤ 32) {s : RoceTables} (hBefore : s.pre.Recorded)
    (hApart : ∀ r r' : Fin n, ports (workers r').mac ≠ some r.val)
    (h : Barriers.Inv (handshake platform setup ports workers) { tables := s } st)
    (hr : 1 < st.passed r) :
    st.shared.tables.Complete platform setup ports workers ∧
      (∀ r', st.shared.responses r' = some (((workers r').request r' n).response setup)) ∧
      (2 < st.passed r →
        ∀ r', st.shared.neighbors r' = some ((workers r').switchNeighbors setup r')) := by
  obtain ⟨hOrder, first, rest, hCons, hFirst, hRest⟩ := order_of_passed h hr
  have hMem : ∀ r', r' ∈ (st.slice 0 ++ st.slice 1).map Barriers.Event.process :=
    fun r' => hOrder.mem_iff.mpr (List.mem_finRange r')
  obtain ⟨later, hLater⟩ : ∃ later, later = st.trace.filter fun e => decide (2 ≤ e.segment) :=
    ⟨_, rfl⟩
  have hTrace : st.trace = st.slice 0 ++ st.slice 1 ++ later := by
    refine (h.trace_eq 2).trans ?_
    rw [hLater]
    simp [List.range_succ]
  have hShared := h.shared
  have hTrue := h.truthful
  rw [hTrace] at hShared hTrue
  rw [List.foldl_append] at hShared
  rw [History.throughout_append] at hTrue
  -- what was done before the second barrier, and what after it
  have hConnects : ∀ e ∈ st.slice 0 ++ st.slice 1, e.act = .connect ∧ e.ok = true := by
    have hSlice : ∀ k < 2, ∀ e ∈ st.slice k, e.act = .connect ∧ e.ok = true := by
      intro k hk e he
      refine ⟨?_, h.slice_ok (Nat.lt_of_lt_of_le hk hr) e he⟩
      obtain ⟨hIn, hAt⟩ := List.mem_filter.mp he
      rcases mem_segment (h.act_mem hIn) with ⟨hAct, -⟩ | ⟨-, hTwo⟩
      · exact hAct
      · rw [of_decide_eq_true hAt] at hTwo
        omega
    intro e he
    rcases List.mem_append.mp he with he | he
    · exact hSlice 0 (by omega) e he
    · exact hSlice 1 (by omega) e he
  have hCopies : ∀ e ∈ later, e.act = .copy := by
    intro e he
    rw [hLater] at he
    obtain ⟨hIn, hAt⟩ := List.mem_filter.mp he
    have hLe := of_decide_eq_true hAt
    rcases mem_segment (h.act_mem hIn) with ⟨-, ⟨hNo, -⟩ | ⟨hNo, -⟩⟩ | ⟨hAct, -⟩
    · omega
    · omega
    · exact hAct
  obtain ⟨hServable, hTables, hAnswers⟩ := connects_run hn hTrue.1 hConnects
  have hAnswered := fun r' => hAnswers r' (.inl (hMem r'))
  obtain ⟨hTables', hResponses, hNeighbors⟩ := copies_run platform ports hCopies hAnswered
  rw [← hShared] at hTables' hResponses hNeighbors
  refine ⟨?_, fun r' => ?_, fun hr' r' => hNeighbors r' (.inl ?_)⟩
  · rw [hTables', hTables, hCons, foldl_clear_first _ hFirst hRest]
    refine complete_of_order s hBefore hApart (fun r' => ?_) (hCons ▸ hOrder)
    obtain ⟨e, he, rfl⟩ := List.mem_map.mp (hMem r')
    exact hServable e he
  · rw [hResponses]
    exact hAnswered r'
  · have hSlice := h.acts_slice hr' r'
    obtain ⟨e, he⟩ : ∃ e, e ∈ (st.slice 2).filter fun e => decide (e.process = r') := by
      refine List.exists_mem_of_ne_nil _ fun hNil => ?_
      rw [hNil] at hSlice
      cases hSlice
    obtain ⟨hIn, hProcess⟩ := List.mem_filter.mp he
    obtain ⟨hIn, hAt⟩ := List.mem_filter.mp hIn
    rw [hLater]
    refine List.mem_map.mpr ⟨e, List.mem_filter.mpr ⟨hIn, ?_⟩, of_decide_eq_true hProcess⟩
    exact decide_eq_true (of_decide_eq_true hAt).ge

/-- Nobody fails if all requests can be served. -/
theorem handshake_alive (hn : n ≤ 32) {s : RoceTables} (hBefore : s.pre.Recorded)
    (hApart : ∀ r r' : Fin n, ports (workers r').mac ≠ some r.val)
    (hServable : ∀ r, ((workers r).request r n).Servable platform ports) (schedule : List (Fin n)) :
    ∀ r, ((handshake platform setup ports workers).run
      ((handshake platform setup ports workers).init { tables := s }) schedule).halted r =
        false := by
  induction schedule using List.reverseRecOn with
  | nil => exact fun r => rfl
  | append_singleton schedule i ih =>
    have hInv := (Barriers.inv_init (handshake platform setup ports workers)
      { tables := s }).run schedule
    rw [Barriers.Program.run, List.foldl_append]
    change ∀ r, ((handshake platform setup ports workers).step
      ((handshake platform setup ports workers).run
        ((handshake platform setup ports workers).init { tables := s }) schedule) i).halted r =
          false
    generalize (handshake platform setup ports workers).run
      ((handshake platform setup ports workers).init { tables := s }) schedule = st at ih hInv ⊢
    rcases Barriers.step_cases (handshake platform setup ports workers) st i with
      hStay | ⟨a, rest, -, hTodo, hStep⟩ | ⟨-, -, -, hStep⟩
    · rwa [hStay]
    · have hOk : ((handshake platform setup ports workers).exec i a st.shared).2 = true := by
        rcases mem_segment (hInv.todo_mem (hTodo ▸ List.mem_cons_self)) with
          ⟨rfl, -⟩ | ⟨rfl, hTwo⟩
        · rw [exec_connect_served hn _ _ (hServable i)]
        · have hPassed : 1 < st.passed i := by omega
          rw [exec_copy ((setting_of_passed hn hBefore hApart hInv hPassed).2.1 i)]
      intro r
      rw [hStep, Barriers.State.act, hOk]
      by_cases hr : r = i
      · simp [hr]
      · simpa [hr] using ih r
    · intro r
      rw [hStep]
      exact ih r

end Schedules

end Job

-- ---------------------------------------------------------------------------
-- Setting up a job
-- ---------------------------------------------------------------------------

/-- Two workers, on ports 40 and 41, with one queue pair each and messages of four packets. -/
def plainWorkers (r : Fin 2) : WorkerSetup where
  mac := BitVec.ofNat 48 (40 + r)
  ipv4 := BitVec.ofNat 32 (10 + r)
  gidIndex := 2
  rkey := 0
  packetSize := .mtu256
  messageSize := 1024
  qpNums := [0x11]

def plainSetup : SwitchSetup := ⟨⟨2, 0xffff, 0x1234⟩, 7⟩

/-- The control plane as it starts. -/
def RoceTables.initial : RoceTables where
  pre := { rids := [], nodes := fun _ => none, group := ∅ }

theorem RoceTables.initial_recorded : RoceTables.initial.pre.Recorded :=
  fun r hr => absurd hr (Finset.notMem_empty r)

theorem plainWorkers_apart :
    ∀ r r' : Fin 2, plainPorts (plainWorkers r').mac ≠ some r.val := by decide

def plainRun (schedule : List (Fin 2)) : Barriers.State (Fin 2) HandshakeAct (Setting 2) :=
  (handshake exactPlatform plainSetup plainPorts plainWorkers).run
    ((handshake exactPlatform plainSetup plainPorts plainWorkers).init { tables := .initial })
    schedule

/-- **Everyone gets there.** For at most 32 workers, none of whose ranks is the number of a port
of the job, and tables in which `PRE.rids` has a record of every node in the multicast group: if
the control plane can serve all requests, six sweeps, in each of which every worker has a turn,
take all workers past all barriers, with the tables complete and the queue pairs set up. -/
theorem handshake_finishes (platform : Platform) (setup : SwitchSetup)
    (ports : BitVec 48 → Option ℕ) {n : ℕ} (hn : n ≤ 32) (workers : Fin n → WorkerSetup)
    (hApart : ∀ r r' : Fin n, ports (workers r').mac ≠ some r.val)
    (hServable : ∀ r, ((workers r).request r n).Servable platform ports) (s : RoceTables)
    (hBefore : s.pre.Recorded) (sweeps : List (List (Fin n)))
    (hSweeps : ∀ ws ∈ sweeps, ∀ r, r ∈ ws) (hLength : 6 ≤ sweeps.length) (r : Fin n) :
    let program := handshake platform setup ports workers
    let st := program.run (program.init { tables := s }) sweeps.flatten
    3 ≤ st.passed r ∧ st.shared.tables.Complete platform setup ports workers ∧
      st.shared.neighbors r = some ((workers r).switchNeighbors setup r) := by
  intro program st
  have hStart := Barriers.inv_init program { tables := s }
  have hLen : ∀ r k, (program.segment r k).length ≤ 1 := by
    intro r k
    match k with
    | 0 | 1 => by_cases hr : r.val = 0 <;> simp [program, handshake, hr]
    | 2 => exact Nat.le_refl _
    | k + 3 => exact Nat.zero_le _
  have hPassed : 3 ≤ st.passed r :=
    hStart.passed_sweeps (handshake_alive hn hBefore hApart hServable) hLen hSweeps hLength r
  obtain ⟨hComplete, -, hNeighbors⟩ := setting_of_passed hn hBefore hApart
    (hStart.run sweeps.flatten) (Nat.lt_of_succ_lt hPassed)
  exact ⟨hPassed, hComplete, hNeighbors hPassed r⟩

theorem plainWorkers_servable :
    ∀ r, ((plainWorkers r).request r 2).Servable exactPlatform plainPorts := by
  have hSendable : ∀ r : Fin 2, 0 < ((plainWorkers r).request r 2).args.packetsPerMessage ∧
      (exactPlatform.log2 ((plainWorkers r).request r 2).args.packetsPerMessage.toNat).isSome =
        true := by
    decide +kernel
  intro r
  obtain ⟨hPos, hLog⟩ := hSendable r
  exact ⟨rfl, hPos, .inr hLog⟩

theorem handshake_finishes_two :
    (plainRun (List.replicate 6 [1, 0]).flatten).shared.tables.Complete exactPlatform plainSetup
      plainPorts plainWorkers := by
  have hSweeps : ∀ ws ∈ List.replicate 6 [(1 : Fin 2), 0], ∀ r, r ∈ ws := by decide
  rw [plainRun]
  exact (handshake_finishes exactPlatform plainSetup plainPorts (by decide) plainWorkers
    plainWorkers_apart plainWorkers_servable .initial RoceTables.initial_recorded
    (List.replicate 6 [1, 0]) hSweeps (by decide) 0).2.1

end SwitchML
