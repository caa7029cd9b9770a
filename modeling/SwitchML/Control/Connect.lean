import Mathlib.Data.Finset.Union
import Mathlib.Data.List.Perm.Basic
import SwitchML.Control.Sender

/-!
# SwitchML control plane — RDMAConnect

The workers of a job connect one after the other, rank 0 first; its request clears what
earlier jobs left. For each worker the control plane adds a node to the multicast group of
the replies (`PRE.worker_add`), fills the egress table (`add_write_worker`) and hands out
the queue pair numbers of the switch.

* `leftOver` — the workers of earlier jobs that the clearing leaves in the group;
* `multicast_group_members` — who is in the group after a job has connected, whatever jobs
  came before; `member_skipped` shows a worker that is left out and one of an earlier job
  that stays in;
* `accepted_jobs_alias_free` — which accepted jobs have switch state of their own for each
  message in flight; `accepted_job_aliases` is one that does not.
-/

namespace SwitchML

-- ---------------------------------------------------------------------------
-- The multicast group
-- ---------------------------------------------------------------------------

/-- The multicast group of the SwitchML workers: the Python record of its members, by port,
the node table and the group table of the replication engine. -/
structure Pre where
  -- the dictionary from `dev_port` to `rid`
  rids : List (ℕ × ℕ)
  -- the port of a node
  nodes : ℕ → Option ℕ
  group : Finset ℕ

namespace Pre

/-- `PRE.worker_add`. The test for a member asks for `rid` among the keys of the record,
which are ports. -/
def workerAdd (s : Pre) (rid devPort : ℕ) : Pre :=
  if s.rids.any fun x => decide (x.1 = rid) then s
  else
    { rids := (devPort, rid) :: s.rids.filter fun x => decide (x.1 ≠ devPort)
      nodes := Function.update s.nodes rid (some devPort)
      group := insert rid s.group }

/-- One turn of the loop of `PRE.worker_clear_all`. -/
def clearMember (s : Pre) (x : ℕ × ℕ) : Pre where
  rids := s.rids.filter fun y => decide (y.1 ≠ x.1)
  nodes := Function.update s.nodes x.2 none
  group := s.group.erase x.2

/-- `PRE.worker_clear_all`. -/
def workerClearAll (s : Pre) : Pre := s.rids.foldl clearMember s

end Pre

-- ---------------------------------------------------------------------------
-- `RDMAConnect`
-- ---------------------------------------------------------------------------

/-- The fields of `RDMAConnectRequest` that the control plane reads, but for those it only
copies into tables. -/
structure ConnectRequest where
  myRank : ℕ
  jobSize : ℕ
  mac : BitVec 48
  packetSize : PacketSize
  messageSize : ℕ
  qpns : List (BitVec 24)

/-- The state of the control plane: the multicast group, and the entries of
`fill_in_qpn_and_psn` with the worker they are for. -/
structure ControlPlane where
  pre : Pre
  sender : List (ℕ × SenderEntry) := []

/-- The queue pair number of the switch for queue pair `i` of a worker. -/
def switchQpn (rank i : ℕ) : ℕ := 0x800000 ||| rank <<< 16 ||| i

section Connect

-- the `dev_port` of each configured address
variable (platform : Platform) (ports : BitVec 48 → Option ℕ)

/-- `Job.worker_add_roce`. -/
def workerAddRoce (s : ControlPlane) (req : ConnectRequest) :
    ControlPlane × Option ControlError :=
  if 32 < req.jobSize then (s, none)
  else match ports req.mac with
    | none => (s, some .unknownMac)
    | some devPort =>
      let added := addWriteWorker platform req.packetSize.number req.messageSize req.qpns
      ({ pre := s.pre.workerAdd req.myRank devPort
         sender := s.sender ++ added.1.map fun e => (req.myRank, e) }, added.2)

/-- `clear_registers`: what the control plane does to the registers of a pipe when a new job
starts. The registers of the queue pairs are not among `registers_to_clear`. -/
def clearRegisters (regs : Registers) : Registers :=
  { regs with
    workerBitmap := fun _ => {}
    workerCount := fun _ => 0
    exponents := fun _ => {}
    significands := fun _ _ => {} }

/-- `Job.worker_clear_all`, for the tables. -/
def ControlPlane.workerClearAll (s : ControlPlane) : ControlPlane where
  pre := s.pre.workerClearAll
  sender := []

/-- `RDMAConnect`: the queue pair numbers of the response, or the error. -/
def rdmaConnect (s : ControlPlane) (req : ConnectRequest) :
    ControlPlane × Except ControlError (List ℕ) :=
  let s := if req.myRank = 0 then s.workerClearAll else s
  let result := workerAddRoce platform ports s req
  (result.1,
    match result.2 with
    | some e => .error e
    | none => .ok ((List.range req.qpns.length).map (switchQpn req.myRank)))

/-- The state after a list of requests. -/
def connects (s : ControlPlane) (reqs : List ConnectRequest) : ControlPlane :=
  reqs.foldl (fun s req => (rdmaConnect platform ports s req).1) s

/-- The requests of a job: rank 0, then all other ranks in any order, each from an address
that is configured. -/
structure JobRequests where
  requests : List ConnectRequest
  size_le : requests.length ≤ 32
  jobSize : ∀ req ∈ requests, req.jobSize = requests.length
  first : ∃ req rest, requests = req :: rest ∧ req.myRank = 0
  ranks : (requests.map ConnectRequest.myRank).Perm (List.range requests.length)
  known : ∀ req ∈ requests, (ports req.mac).isSome

variable {ports}

/-- The rank and the `dev_port` of each worker of a job, in the order they connect. -/
def JobRequests.workers (job : JobRequests ports) : List (ℕ × ℕ) :=
  job.requests.map fun req => (req.myRank, (ports req.mac).getD 0)

end Connect

-- ---------------------------------------------------------------------------
-- Adding and clearing workers
-- ---------------------------------------------------------------------------

/-- The workers that are added to the group: the rank of none of them is the port of one
that was added before. -/
def joined (workers : List (ℕ × ℕ)) : List (ℕ × ℕ) :=
  workers.foldl (fun added x => if added.any fun y => decide (y.2 = x.1) then added
    else added ++ [x]) []

theorem joined_snoc (workers : List (ℕ × ℕ)) (x : ℕ × ℕ) :
    joined (workers ++ [x]) =
      if (joined workers).any fun y => decide (y.2 = x.1) then joined workers
      else joined workers ++ [x] := by
  rw [joined, List.foldl_append]
  rfl

theorem joined_subset (workers : List (ℕ × ℕ)) : joined workers ⊆ workers := by
  induction workers using List.reverseRecOn with
  | nil => exact List.Subset.refl _
  | append_singleton workers x ih =>
    rw [joined_snoc]
    split
    · exact List.Subset.trans ih (List.subset_append_left _ _)
    · exact List.append_subset.mpr ⟨List.Subset.trans ih (List.subset_append_left _ _),
        List.subset_append_right _ _⟩

/-- The workers of a list behind which another one has their port. -/
def overwritten : List (ℕ × ℕ) → List (ℕ × ℕ)
  | [] => []
  | x :: l => if x.2 ∈ l.map Prod.snd then x :: overwritten l else overwritten l

theorem mem_of_mem_overwritten {l : List (ℕ × ℕ)} {x : ℕ × ℕ} (h : x ∈ overwritten l) : x ∈ l := by
  induction l with
  | nil => exact h
  | cons y l ih =>
    unfold overwritten at h
    split at h
    · exact List.mem_cons.mpr ((List.mem_cons.mp h).imp_right ih)
    · exact List.mem_cons_of_mem _ (ih h)

theorem mem_overwritten_snoc {l : List (ℕ × ℕ)} {x y : ℕ × ℕ} :
    y ∈ overwritten (l ++ [x]) ↔ y ∈ overwritten l ∨ y ∈ l ∧ y.2 = x.2 := by
  induction l with
  | nil => simp [overwritten]
  | cons z l ih =>
    have hCons : ∀ (l : List (ℕ × ℕ)) (z : ℕ × ℕ), y ∈ overwritten (z :: l) ↔
        y = z ∧ z.2 ∈ l.map Prod.snd ∨ y ∈ overwritten l := by
      intro l z
      rw [overwritten]
      split <;> simp [*]
    rw [List.cons_append, hCons, hCons, ih, List.map_append, List.mem_append, List.mem_cons,
      List.map_singleton, List.mem_singleton]
    constructor
    · rintro (⟨rfl, h | h⟩ | h | h)
      · exact .inl (.inl ⟨rfl, h⟩)
      · exact .inr ⟨.inl rfl, h⟩
      · exact .inl (.inr h)
      · exact .inr ⟨.inr h.1, h.2⟩
    · rintro ((h | h) | ⟨rfl | h, hPort⟩)
      · exact .inl ⟨h.1, .inl h.2⟩
      · exact .inr (.inl h)
      · exact .inl ⟨rfl, .inr hPort⟩
      · exact .inr (.inr ⟨h, hPort⟩)

/-- The workers of a sequence of jobs that stay in the group when the last job is cleared: one
of their job was added after them on their port, and no later job has added their rank. -/
def leftOver : List (List (ℕ × ℕ)) → List (ℕ × ℕ)
  | [] => []
  | job :: later =>
    (overwritten (joined job)).filter (fun x =>
      later.all fun job' => decide (x.1 ∉ (joined job').map Prod.fst)) ++ leftOver later

theorem mem_leftOver_snoc {jobs : List (List (ℕ × ℕ))} {job : List (ℕ × ℕ)} {x : ℕ × ℕ} :
    x ∈ leftOver (jobs ++ [job]) ↔
      x ∈ overwritten (joined job) ∨ x ∈ leftOver jobs ∧ x.1 ∉ (joined job).map Prod.fst := by
  induction jobs with
  | nil => simp [leftOver]
  | cons first jobs ih =>
    rw [List.cons_append, leftOver, leftOver, List.mem_append, List.mem_append, ih,
      List.mem_filter, List.mem_filter, List.all_append, Bool.and_eq_true, List.all_cons,
      List.all_nil, Bool.and_true, decide_eq_true_eq]
    tauto

namespace Pre

/-- All workers of a job are added. -/
def workersAdd (s : Pre) (workers : List (ℕ × ℕ)) : Pre :=
  workers.foldl (fun s x => s.workerAdd x.1 x.2) s

theorem workersAdd_snoc (s : Pre) (workers : List (ℕ × ℕ)) (x : ℕ × ℕ) :
    s.workersAdd (workers ++ [x]) = (s.workersAdd workers).workerAdd x.1 x.2 := by
  rw [workersAdd, List.foldl_append]
  rfl

theorem workerAdd_known {s : Pre} {rid : ℕ}
    (h : (s.rids.any fun x => decide (x.1 = rid)) = true) (devPort : ℕ) :
    s.workerAdd rid devPort = s := if_pos h

theorem workerAdd_new {s : Pre} {rid : ℕ}
    (h : (s.rids.any fun x => decide (x.1 = rid)) = false) (devPort : ℕ) :
    (s.workerAdd rid devPort).rids =
      (devPort, rid) :: s.rids.filter (fun x => decide (x.1 ≠ devPort)) ∧
    (s.workerAdd rid devPort).nodes = Function.update s.nodes rid (some devPort) ∧
    (s.workerAdd rid devPort).group = insert rid s.group := by
  rw [workerAdd, h]
  exact ⟨rfl, rfl, rfl⟩

theorem any_rids_workerAdd {s : Pre} {rid devPort k : ℕ}
    (hNew : (s.rids.any fun x => decide (x.1 = rid)) = false) :
    ((s.workerAdd rid devPort).rids.any fun x => decide (x.1 = k)) =
      (decide (devPort = k) || s.rids.any fun x => decide (x.1 = k)) := by
  rw [(workerAdd_new hNew devPort).1]
  simp only [List.any_cons, List.any_filter]
  by_cases hk : devPort = k
  · simp [hk]
  · simp only [hk, decide_false, Bool.false_or]
    congr 1
    funext x
    by_cases hx : x.1 = k
    · simp [hx, Ne.symm hk]
    · simp [hx]

/-- The record and the group after the workers of a job were added to an empty record. -/
theorem workersAdd_eq {s : Pre} (hEmpty : s.rids = []) (workers : List (ℕ × ℕ)) :
    (∀ k, ((s.workersAdd workers).rids.any fun x => decide (x.1 = k)) =
      (joined workers).any fun y => decide (y.2 = k)) ∧
    (s.workersAdd workers).group = s.group ∪ ((joined workers).map Prod.fst).toFinset := by
  induction workers using List.reverseRecOn with
  | nil => simp [workersAdd, joined, hEmpty]
  | append_singleton workers x ih =>
    obtain ⟨hKeys, hGroup⟩ := ih
    rw [workersAdd_snoc, joined_snoc]
    cases hSkip : (joined workers).any fun y => decide (y.2 = x.1) with
    | true =>
      rw [workerAdd_known ((hKeys x.1).trans hSkip), if_pos rfl]
      exact ⟨hKeys, hGroup⟩
    | false =>
      have hNew := (hKeys x.1).trans hSkip
      rw [if_neg Bool.false_ne_true]
      refine ⟨fun k => ?_, ?_⟩
      · rw [any_rids_workerAdd hNew, hKeys, List.any_append, List.any_cons, List.any_nil,
          Bool.or_false, Bool.or_comm]
      · rw [(workerAdd_new hNew x.2).2.2, hGroup, List.map_append, List.toFinset_append,
          ← Finset.union_assoc, Finset.insert_eq, Finset.union_comm]
        rfl

/-- The node of a worker that was added has its port; all other nodes stay. -/
theorem workersAdd_nodes {s : Pre} (hEmpty : s.rids = []) {workers : List (ℕ × ℕ)}
    (hNodup : (workers.map Prod.fst).Nodup) :
    (∀ x ∈ joined workers, (s.workersAdd workers).nodes x.1 = some x.2) ∧
    ∀ r, r ∉ (joined workers).map Prod.fst → (s.workersAdd workers).nodes r = s.nodes r := by
  induction workers using List.reverseRecOn with
  | nil => simp [workersAdd, joined]
  | append_singleton workers x ih =>
    rw [List.map_append, List.nodup_append] at hNodup
    obtain ⟨hBefore, -, hApart⟩ := hNodup
    obtain ⟨hIn, hOut⟩ := ih hBefore
    have hKeys := (workersAdd_eq hEmpty workers).1
    rw [workersAdd_snoc, joined_snoc]
    cases hSkip : (joined workers).any fun y => decide (y.2 = x.1) with
    | true =>
      rw [workerAdd_known ((hKeys x.1).trans hSkip), if_pos rfl]
      exact ⟨hIn, hOut⟩
    | false =>
      have hNew := (hKeys x.1).trans hSkip
      rw [if_neg Bool.false_ne_true, (workerAdd_new hNew x.2).2.1]
      refine ⟨fun y hy => ?_, fun r hr => ?_⟩
      · rcases List.mem_append.mp hy with hy | hy
        · have hMem : y.1 ∈ workers.map Prod.fst :=
            List.mem_map_of_mem (joined_subset workers hy)
          rw [Function.update_of_ne (hApart y.1 hMem x.1 (by simp))]
          exact hIn y hy
        · rw [List.mem_singleton.mp hy, Function.update_self]
      · rw [List.map_append, List.mem_append, not_or] at hr
        rw [Function.update_of_ne (by simpa using hr.2)]
        exact hOut r hr.1

/-- The record has the last worker of each port. -/
theorem mem_rids_workersAdd {s : Pre} (hEmpty : s.rids = []) {workers : List (ℕ × ℕ)}
    (hNodup : (workers.map Prod.fst).Nodup) (y : ℕ × ℕ) :
    (y.2, y.1) ∈ (s.workersAdd workers).rids ↔
      y ∈ joined workers ∧ y ∉ overwritten (joined workers) := by
  induction workers using List.reverseRecOn with
  | nil => simp [workersAdd, joined, hEmpty]
  | append_singleton workers x ih =>
    rw [List.map_append, List.nodup_append] at hNodup
    obtain ⟨hBefore, -, hApart⟩ := hNodup
    have hKeys := (workersAdd_eq hEmpty workers).1
    have hNot : x ∉ joined workers := fun hMem =>
      hApart x.1 (List.mem_map_of_mem (joined_subset workers hMem)) x.1 (by simp) rfl
    rw [workersAdd_snoc, joined_snoc]
    cases hSkip : (joined workers).any fun y => decide (y.2 = x.1) with
    | true =>
      rw [workerAdd_known ((hKeys x.1).trans hSkip), if_pos rfl]
      exact ih hBefore
    | false =>
      rw [(workerAdd_new ((hKeys x.1).trans hSkip) x.2).1, if_neg Bool.false_ne_true,
        List.mem_cons, List.mem_filter, decide_eq_true_eq, ih hBefore, mem_overwritten_snoc,
        List.mem_append, List.mem_singleton]
      have hSwap : (y.2, y.1) = (x.2, x.1) ↔ y = x := by
        rw [Prod.mk.injEq, and_comm, Prod.ext_iff]
      rw [hSwap]
      by_cases hEq : y = x
      · subst hEq
        have hKept : y ∉ overwritten (joined workers) := fun h => hNot (mem_of_mem_overwritten h)
        simp [hNot, hKept]
      · simp only [hEq, false_or, or_false]
        tauto

/-- What is left of the group when its recorded members are cleared. -/
theorem workerClearAll_eq (s : Pre) :
    s.workerClearAll.rids = [] ∧
    ∀ r, r ∈ s.workerClearAll.group ↔ r ∈ s.group ∧ ∀ x ∈ s.rids, x.2 ≠ r := by
  have hLoop : ∀ (l : List (ℕ × ℕ)) (s : Pre),
      (l.foldl clearMember s).rids = s.rids.filter (fun y => l.all fun x => decide (y.1 ≠ x.1)) ∧
      ∀ r, r ∈ (l.foldl clearMember s).group ↔ r ∈ s.group ∧ ∀ x ∈ l, x.2 ≠ r := by
    intro l
    induction l with
    | nil => intro s; simp
    | cons x l ih =>
      intro s
      obtain ⟨hRids, hGroup⟩ := ih (s.clearMember x)
      rw [List.foldl_cons]
      refine ⟨?_, fun r => ?_⟩
      · rw [hRids, clearMember, List.filter_filter]
        congr 1
        funext y
        simp [Bool.and_comm]
      · rw [hGroup, clearMember, Finset.mem_erase, List.forall_mem_cons]
        constructor
        · rintro ⟨⟨hNe, hMem⟩, hRest⟩
          exact ⟨hMem, Ne.symm hNe, hRest⟩
        · rintro ⟨hMem, hNe, hRest⟩
          exact ⟨⟨Ne.symm hNe, hMem⟩, hRest⟩
  obtain ⟨hRids, hGroup⟩ := hLoop s.rids s
  refine ⟨?_, hGroup⟩
  rw [workerClearAll, hRids, List.filter_eq_nil_iff]
  intro y hy hAll
  have := List.all_eq_true.mp hAll y hy
  simp at this

/-- A node that is not recorded stays as it is. -/
theorem workerClearAll_nodes {s : Pre} {r : ℕ} (h : ∀ x ∈ s.rids, x.2 ≠ r) :
    s.workerClearAll.nodes r = s.nodes r := by
  have hLoop : ∀ (l : List (ℕ × ℕ)) (s : Pre), (∀ x ∈ l, x.2 ≠ r) →
      (l.foldl clearMember s).nodes r = s.nodes r := by
    intro l
    induction l with
    | nil => exact fun _ _ => rfl
    | cons x l ih =>
      intro s hOther
      obtain ⟨hx, hl⟩ := List.forall_mem_cons.mp hOther
      rw [List.foldl_cons, ih _ hl]
      exact Function.update_of_ne (Ne.symm hx) _ _
  exact hLoop s.rids s h

/-- The group with an empty record has these workers, each on its port. -/
structure Holds (s : Pre) (workers : List (ℕ × ℕ)) : Prop where
  rids : s.rids = []
  mem_iff : ∀ x, x ∈ workers ↔ x.1 ∈ s.group ∧ s.nodes x.1 = some x.2
  nodes : ∀ r ∈ s.group, ∃ p, s.nodes r = some p

/-- What a job leaves behind: the workers whose record was overwritten, and of those that were
left before it the ones whose ranks it has not added. -/
theorem Holds.clear {s : Pre} {l : List (ℕ × ℕ)} (h : s.Holds l) {workers : List (ℕ × ℕ)}
    (hNodup : (workers.map Prod.fst).Nodup) {l' : List (ℕ × ℕ)}
    (hl' : ∀ x, x ∈ l' ↔
      x ∈ overwritten (joined workers) ∨ x ∈ l ∧ x.1 ∉ (joined workers).map Prod.fst) :
    (s.workersAdd workers).workerClearAll.Holds l' := by
  obtain ⟨hRids, hGroup⟩ := (s.workersAdd workers).workerClearAll_eq
  obtain ⟨hIn, hOut⟩ := workersAdd_nodes h.rids hNodup
  -- a worker that was added is recorded, or it is left
  have hRank : ∀ x ∈ joined workers, (∀ y ∈ (s.workersAdd workers).rids, y.2 ≠ x.1) ↔
      x ∈ overwritten (joined workers) := by
    intro x hx
    constructor
    · intro hNone
      by_contra hKept
      exact hNone _ ((mem_rids_workersAdd h.rids hNodup x).mpr ⟨hx, hKept⟩) rfl
    · rintro hLost ⟨p, r⟩ hy rfl
      obtain ⟨hJoined, hKept⟩ := (mem_rids_workersAdd h.rids hNodup (x.1, p)).mp hy
      have hSame := List.inj_on_of_nodup_map hNodup (joined_subset _ hJoined)
        (joined_subset _ hx) rfl
      exact hKept (hSame ▸ hLost)
  have hOther : ∀ r ∉ (joined workers).map Prod.fst,
      ∀ y ∈ (s.workersAdd workers).rids, y.2 ≠ r := by
    rintro r hr ⟨p, r'⟩ hy rfl
    have hJoined := ((mem_rids_workersAdd h.rids hNodup (r', p)).mp hy).1
    exact hr (List.mem_map_of_mem hJoined)
  have hMem : ∀ r, r ∈ (s.workersAdd workers).group ↔
      r ∈ s.group ∨ r ∈ (joined workers).map Prod.fst := by
    intro r
    rw [(workersAdd_eq h.rids workers).2, Finset.mem_union, List.mem_toFinset]
  refine ⟨hRids, fun x => ?_, fun r hr => ?_⟩
  · rw [hl', hGroup, hMem]
    by_cases hJoined : x.1 ∈ (joined workers).map Prod.fst
    · obtain ⟨y, hy, hEq⟩ := List.mem_map.mp hJoined
      simp only [hJoined, not_true_eq_false, and_false, or_false, or_true, true_and]
      rw [← hEq, hRank y hy]
      constructor
      · intro hLost
        have hSame := List.inj_on_of_nodup_map hNodup
          (joined_subset _ (mem_of_mem_overwritten hLost)) (joined_subset _ hy) hEq.symm
        subst hSame
        exact ⟨hLost, (workerClearAll_nodes ((hRank x hy).mpr hLost)).trans (hIn x hy)⟩
      · rintro ⟨hLost, hNode⟩
        rw [workerClearAll_nodes ((hRank y hy).mpr hLost), hIn y hy] at hNode
        rwa [Prod.ext hEq.symm (Option.some.inj hNode).symm]
    · have hLost : x ∉ overwritten (joined workers) := fun hLost =>
        hJoined (List.mem_map_of_mem (mem_of_mem_overwritten hLost))
      rw [workerClearAll_nodes (hOther x.1 hJoined), hOut x.1 hJoined, h.mem_iff,
        and_iff_left (hOther x.1 hJoined)]
      simp only [hLost, hJoined, not_false_eq_true, and_true, false_or, or_false]
  · obtain ⟨hOld, hNone⟩ := (hGroup r).mp hr
    rw [workerClearAll_nodes hNone]
    by_cases hJoined : r ∈ (joined workers).map Prod.fst
    · obtain ⟨y, hy, rfl⟩ := List.mem_map.mp hJoined
      exact ⟨y.2, hIn y hy⟩
    · rw [hOut r hJoined]
      exact h.nodes r (((hMem r).mp hOld).resolve_right hJoined)

/-- Every member of the group is in the record. -/
def Recorded (s : Pre) : Prop := ∀ r ∈ s.group, ∃ p, (p, r) ∈ s.rids

theorem Recorded.clears {s : Pre} (h : s.Recorded) : s.workerClearAll.group = ∅ := by
  refine Finset.eq_empty_of_forall_notMem fun r hr => ?_
  obtain ⟨hMem, hNone⟩ := (s.workerClearAll_eq.2 r).mp hr
  obtain ⟨p, hp⟩ := h r hMem
  exact hNone (p, r) hp rfl

/-- On distinct ports no record is overwritten. -/
theorem workersAdd_recorded {s : Pre} (hRids : s.rids = []) (hGroup : s.group = ∅)
    {workers : List (ℕ × ℕ)} (hPorts : (workers.map Prod.snd).Nodup) :
    (s.workersAdd workers).Recorded ∧ ∀ y ∈ (s.workersAdd workers).rids, y.swap ∈ workers := by
  induction workers using List.reverseRecOn with
  | nil => simp [workersAdd, Recorded, hRids, hGroup]
  | append_singleton workers x ih =>
    rw [List.map_append, List.nodup_append] at hPorts
    obtain ⟨hBefore, -, hApart⟩ := hPorts
    obtain ⟨hRec, hOwn⟩ := ih hBefore
    rw [workersAdd_snoc]
    cases hKnown : (s.workersAdd workers).rids.any fun y => decide (y.1 = x.1) with
    | true =>
      rw [workerAdd_known hKnown]
      exact ⟨hRec, fun y hy => List.mem_append_left _ (hOwn y hy)⟩
    | false =>
      obtain ⟨hRids', -, hGroup'⟩ := workerAdd_new hKnown x.2
      unfold Recorded
      rw [hRids', hGroup']
      refine ⟨fun r hr => ?_, fun y hy => ?_⟩
      · rcases Finset.mem_insert.mp hr with rfl | hr
        · exact ⟨x.2, List.mem_cons_self⟩
        · obtain ⟨p, hp⟩ := hRec r hr
          have hNe : p ≠ x.2 :=
            hApart p (List.mem_map.mpr ⟨(r, p), hOwn (p, r) hp, rfl⟩) x.2 (by simp)
          exact ⟨p, List.mem_cons_of_mem _ (List.mem_filter.mpr ⟨hp, decide_eq_true hNe⟩)⟩
      · rcases List.mem_cons.mp hy with rfl | hy
        · exact List.mem_append_right _ (by simp)
        · exact List.mem_append_left _ (hOwn y (List.mem_of_mem_filter hy))

end Pre

-- ---------------------------------------------------------------------------
-- Jobs
-- ---------------------------------------------------------------------------

namespace JobRequests

variable {ports : BitVec 48 → Option ℕ} (platform : Platform) (job : JobRequests ports)

theorem ranks_workers : (job.workers.map Prod.fst).Perm (List.range job.requests.length) := by
  rw [workers, List.map_map]
  exact job.ranks

theorem nodup_ranks : (job.workers.map Prod.fst).Nodup :=
  job.ranks_workers.nodup_iff.mpr List.nodup_range

theorem mem_ranks {r : ℕ} : r ∈ job.workers.map Prod.fst ↔ r < job.requests.length := by
  rw [job.ranks_workers.mem_iff, List.mem_range]

/-- A request of the job that does not clear the state adds its worker. -/
theorem rdmaConnect_pre (req : ConnectRequest) (hReq : req ∈ job.requests) (s : ControlPlane) :
    (rdmaConnect platform ports s req).1.pre =
      (if req.myRank = 0 then s.pre.workerClearAll else s.pre).workerAdd req.myRank
        ((ports req.mac).getD 0) := by
  have hSize : ¬ 32 < req.jobSize := by
    rw [job.jobSize req hReq]
    exact Nat.not_lt.mpr job.size_le
  obtain ⟨devPort, hPort⟩ := Option.isSome_iff_exists.mp (job.known req hReq)
  unfold rdmaConnect workerAddRoce
  dsimp only
  rw [if_neg hSize, hPort]
  by_cases hZero : req.myRank = 0
  · rw [if_pos hZero, if_pos hZero]
    rfl
  · rw [if_neg hZero, if_neg hZero]
    rfl

/-- **A job connects.** Its first request clears the state, and all add their workers. -/
theorem connects_pre (s : ControlPlane) :
    (connects platform ports s job.requests).pre = s.pre.workerClearAll.workersAdd job.workers := by
  obtain ⟨first, rest, hRequests, hFirst⟩ := job.first
  -- the ranks of all other requests are not 0
  have hRest : ∀ req ∈ rest, req.myRank ≠ 0 := by
    intro req hReq hZero
    have hNodup := job.ranks.nodup_iff.mpr List.nodup_range
    rw [hRequests, List.map_cons, List.nodup_cons] at hNodup
    exact hNodup.1 (List.mem_map.mpr ⟨req, hReq, hZero.trans hFirst.symm⟩)
  have hAdds : ∀ reqs, (∀ req ∈ reqs, req ∈ rest) → ∀ s : ControlPlane,
      (connects platform ports s reqs).pre =
        s.pre.workersAdd (reqs.map fun req => (req.myRank, (ports req.mac).getD 0)) := by
    intro reqs
    induction reqs with
    | nil => exact fun _ _ => rfl
    | cons req reqs ih =>
      intro hMem s
      have hReq := hMem req List.mem_cons_self
      have hStep := job.rdmaConnect_pre platform req (hRequests ▸ List.mem_cons_of_mem _ hReq) s
      rw [if_neg (hRest req hReq)] at hStep
      rw [connects, List.foldl_cons]
      exact (ih (fun r hr => hMem r (List.mem_cons_of_mem _ hr)) _).trans (by rw [hStep]; rfl)
  have hStep := job.rdmaConnect_pre platform first (hRequests ▸ List.mem_cons_self) s
  rw [if_pos hFirst] at hStep
  rw [workers, hRequests, connects, List.foldl_cons]
  exact (hAdds rest (fun _ h => h) _).trans (by rw [hStep]; rfl)

end JobRequests

/-- The group consists of the workers of the job, each on its port. -/
def Members {ports : BitVec 48 → Option ℕ} (s : Pre) (job : JobRequests ports) : Prop :=
  s.group = Finset.range job.requests.length ∧ ∀ x ∈ job.workers, s.nodes x.1 = some x.2

/-- The control plane as it starts; the node table may hold anything. -/
def ControlPlane.initial (nodes : ℕ → Option ℕ) : ControlPlane where
  pre := { rids := [], nodes, group := ∅ }

/-- The state after a sequence of jobs. -/
def afterJobs {ports : BitVec 48 → Option ℕ} (platform : Platform) (nodes : ℕ → Option ℕ)
    (jobs : List (JobRequests ports)) : ControlPlane :=
  jobs.foldl (fun s job => connects platform ports s job.requests) (.initial nodes)

theorem holds_leftOver {ports : BitVec 48 → Option ℕ} (platform : Platform)
    (nodes : ℕ → Option ℕ) (jobs : List (JobRequests ports)) :
    (afterJobs platform nodes jobs).pre.workerClearAll.Holds
      (leftOver (jobs.map JobRequests.workers)) := by
  induction jobs using List.reverseRecOn with
  | nil =>
    exact ⟨rfl, fun x => by simp [leftOver, afterJobs, ControlPlane.initial, Pre.workerClearAll],
      fun r hr => absurd hr (by simp [afterJobs, ControlPlane.initial, Pre.workerClearAll])⟩
  | append_singleton jobs job ih =>
    rw [afterJobs, List.foldl_append, List.foldl_cons, List.foldl_nil, job.connects_pre platform,
      List.map_append]
    exact ih.clear job.nodup_ranks fun x => mem_leftOver_snoc

/-- Jobs whose workers have ports of their own leave nothing behind. -/
theorem afterJobs_recorded {ports : BitVec 48 → Option ℕ} (platform : Platform)
    (nodes : ℕ → Option ℕ) {jobs : List (JobRequests ports)}
    (hPorts : ∀ job ∈ jobs, (job.workers.map Prod.snd).Nodup) :
    (afterJobs platform nodes jobs).pre.Recorded := by
  induction jobs using List.reverseRecOn with
  | nil => exact fun r hr => absurd hr (by simp [afterJobs, ControlPlane.initial])
  | append_singleton jobs job ih =>
    have hBefore := ih fun job hJob => hPorts job (List.mem_append_left _ hJob)
    have hHere := hPorts job (by simp)
    rw [afterJobs, List.foldl_append, List.foldl_cons, List.foldl_nil, job.connects_pre platform]
    exact (Pre.workersAdd_recorded (Pre.workerClearAll_eq _).1 hBefore.clears hHere).1

/-- The group after a job has connected to any state. -/
theorem members_connects {ports : BitVec 48 → Option ℕ} (platform : Platform)
    (before : ControlPlane) (job : JobRequests ports) :
    let left := before.pre.workerClearAll
    Members (connects platform ports before job.requests).pre job ↔
      (∀ r ∈ left.group, r < job.requests.length) ∧
      ∀ x ∈ job.workers, x ∉ joined job.workers →
        x.1 ∈ left.group ∧ left.nodes x.1 = some x.2 := by
  intro left
  have hEmpty : left.rids = [] := before.pre.workerClearAll_eq.1
  obtain ⟨hIn, hOut⟩ := Pre.workersAdd_nodes hEmpty job.nodup_ranks
  have hGroup := (Pre.workersAdd_eq hEmpty job.workers).2
  -- ranks name workers, so that the rank of a worker that is not added is not added
  have hRank : ∀ x ∈ job.workers, x ∉ joined job.workers →
      x.1 ∉ (joined job.workers).map Prod.fst := by
    intro x hx hNot hMem
    obtain ⟨y, hy, hEq⟩ := List.mem_map.mp hMem
    have hSame := List.inj_on_of_nodup_map job.nodup_ranks (joined_subset _ hy) hx hEq
    exact hNot (hSame ▸ hy)
  have hJoined : ∀ r ∈ (joined job.workers).map Prod.fst, r < job.requests.length := by
    intro r hr
    obtain ⟨y, hy, rfl⟩ := List.mem_map.mp hr
    exact job.mem_ranks.mp (List.mem_map_of_mem (joined_subset _ hy))
  unfold Members
  rw [job.connects_pre, hGroup]
  constructor
  · rintro ⟨hRange, hNodes⟩
    refine ⟨fun r hr => ?_, fun x hx hNot => ?_⟩
    · rw [← Finset.mem_range, ← hRange]
      exact Finset.mem_union_left _ hr
    · have hMem : x.1 ∈ left.group ∪ ((joined job.workers).map Prod.fst).toFinset := by
        rw [hRange, Finset.mem_range]
        exact job.mem_ranks.mp (List.mem_map_of_mem hx)
      refine ⟨?_, ?_⟩
      · rcases Finset.mem_union.mp hMem with hMem | hMem
        · exact hMem
        · exact absurd (List.mem_toFinset.mp hMem) (hRank x hx hNot)
      · rw [← hOut x.1 (hRank x hx hNot)]
        exact hNodes x hx
  · rintro ⟨hLeft, hSkipped⟩
    refine ⟨?_, fun x hx => ?_⟩
    · ext r
      rw [Finset.mem_union, List.mem_toFinset, Finset.mem_range]
      constructor
      · rintro (hr | hr)
        · exact hLeft r hr
        · exact hJoined r hr
      · intro hr
        obtain ⟨x, hx, rfl⟩ := List.mem_map.mp (job.mem_ranks.mpr hr)
        by_cases hNot : x ∈ joined job.workers
        · exact .inr (List.mem_map_of_mem hNot)
        · exact .inl (hSkipped x hx hNot).1
    · by_cases hNot : x ∈ joined job.workers
      · exact hIn x hNot
      · rw [hOut x.1 (hRank x hx hNot)]
        exact (hSkipped x hx hNot).2

/-- **Members of the group.** After any sequence of jobs, the group consists of the workers
of the next job, each on its port, if and only if no rank that is left over from an earlier job
is outside the job, and each worker that is not added is left over with its own port. If the
workers of each earlier job had ports of their own, nothing is left over, and the group is
right if and only if no worker's rank is the port of one that was added before. -/
theorem multicast_group_members {ports : BitVec 48 → Option ℕ} (platform : Platform)
    (nodes : ℕ → Option ℕ) (earlier : List (JobRequests ports)) (job : JobRequests ports) :
    let before := afterJobs platform nodes earlier
    let left := leftOver (earlier.map JobRequests.workers)
    let members := Members (connects platform ports before job.requests).pre job
    (members ↔ (∀ x ∈ left, x.1 < job.requests.length) ∧
      ∀ x ∈ job.workers, x ∉ joined job.workers → x ∈ left) ∧
    ((∀ job ∈ earlier, (job.workers.map Prod.snd).Nodup) →
      (members ↔ ∀ x ∈ job.workers, x ∈ joined job.workers)) := by
  intro before left members
  have hLeft := holds_leftOver platform nodes earlier
  have hMembers : members ↔ (∀ x ∈ left, x.1 < job.requests.length) ∧
      ∀ x ∈ job.workers, x ∉ joined job.workers → x ∈ left := by
    simp only [left, hLeft.mem_iff]
    refine (members_connects platform before job).trans (and_congr_left' ?_)
    constructor
    · exact fun h x hx => h x.1 hx.1
    · intro h r hr
      obtain ⟨p, hNode⟩ := hLeft.nodes r hr
      exact h (r, p) ⟨hr, hNode⟩
  refine ⟨hMembers, fun hPorts => hMembers.trans ?_⟩
  have hNone : ∀ x, x ∉ left := by
    intro x hx
    have hMem := ((hLeft.mem_iff x).mp hx).1
    rw [(afterJobs_recorded platform nodes hPorts).clears] at hMem
    exact absurd hMem (Finset.notMem_empty _)
  constructor
  · rintro ⟨-, hSkipped⟩ x hx
    by_contra hNot
    exact hNone x (hSkipped x hx hNot)
  · intro hAll
    exact ⟨fun x hx => absurd hx (hNone x), fun x hx hNot => absurd (hAll x hx) hNot⟩

/-- The number of an address is its port. -/
def plainPorts : BitVec 48 → Option ℕ := fun mac => some mac.toNat

/-- A request for a job of the given size, for one queue pair with messages of four packets. -/
def plainRequest (size rank port : ℕ) : ConnectRequest where
  myRank := rank
  jobSize := size
  mac := BitVec.ofNat 48 port
  packetSize := .mtu256
  messageSize := 1024
  qpns := [0x11]

/-- A job of workers on the given ports, which connect by rank. -/
def plainJob (first : ℕ) (others : List ℕ) (h : others.length < 32) : JobRequests plainPorts where
  requests := (first :: others).mapIdx (plainRequest (others.length + 1))
  size_le := by simpa using h
  jobSize := by
    intro req hReq
    obtain ⟨i, hi, rfl⟩ := List.mem_mapIdx.mp hReq
    simp [plainRequest]
  first := ⟨_, _, List.mapIdx_cons, rfl⟩
  ranks := by
    refine List.Perm.of_eq (List.ext_getElem (by simp) fun i _ _ => ?_)
    rw [List.getElem_map, List.getElem_mapIdx, List.getElem_range]
    rfl
  known := fun _ _ => rfl

/-- Two jobs of two workers on ports above all ranks. -/
theorem multicast_group_members_pair :
    let earlier := plainJob 40 [44] (by decide)
    let job := plainJob 44 [48] (by decide)
    Members (connects exactPlatform plainPorts
      (afterJobs exactPlatform (fun _ => none) [earlier]) job.requests).pre job := by
  intro earlier job
  refine ((multicast_group_members exactPlatform (fun _ => none) [earlier] job).2 ?_).mpr
    (by decide +kernel)
  intro j hj
  obtain rfl := List.mem_singleton.mp hj
  decide +kernel

/-- Two workers, rank 0 on port 1 and rank 1 on port 5: rank 1 is taken for a member and left
out. Three workers on one port, and then a job of one: the record of the port only has
rank 2, so that rank 1 of the earlier job stays in the group. -/
theorem member_skipped :
    let job := plainJob 1 [5] (by decide)
    let shared := plainJob 8 [8, 8] (by decide)
    let next := plainJob 8 [] (by decide)
    let s := (connects exactPlatform plainPorts (.initial fun _ => none) job.requests).pre
    let t := (connects exactPlatform plainPorts
      (afterJobs exactPlatform (fun _ => none) [shared]) next.requests).pre
    (s.group = {0} ∧ ¬ Members s job) ∧ t.group = {0, 1} ∧ ¬ Members t next := by
  intro job shared next s t
  have hs : s.group = {0} := by decide +kernel
  have ht : t.group = {0, 1} := by decide +kernel
  refine ⟨⟨hs, fun h => ?_⟩, ht, fun h => ?_⟩
  · exact absurd (hs.symm.trans h.1) (by decide +kernel)
  · exact absurd (ht.symm.trans h.1) (by decide +kernel)

-- ---------------------------------------------------------------------------
-- State of the switch for each message in flight
-- ---------------------------------------------------------------------------

/-- `switchQpn` by the rank and the number of the queue pair. -/
theorem switchQpn_eq {rank i : ℕ} (hRank : rank < 32) (hi : i < 2 ^ 16) :
    switchQpn rank i = 2 ^ 16 * (128 + rank) + i := by
  have hTop : 0x800000 ||| rank <<< 16 = (128 + rank) <<< 16 := by
    have hOr : 128 + rank = 128 ||| rank :=
      Nat.two_pow_add_eq_or_of_lt (i := 7) (by omega) 1
    rw [hOr, Nat.shiftLeft_or_distrib]
    rfl
  unfold switchQpn
  rw [hTop, Nat.shiftLeft_eq, Nat.mul_comm, ← Nat.two_pow_add_eq_or_of_lt hi]

/-- `QP_INDEX` keeps five bits of the rank and nine of the number of the queue pair. -/
theorem qpIndex_switchQpn {rank i : ℕ} (hRank : rank < 32) (hi : i < 2 ^ 16) :
    (qpIndex (BitVec.ofNat 24 (switchQpn rank i))).toNat = 2 ^ 9 * rank + i % 2 ^ 9 := by
  unfold qpIndex
  rw [switchQpn_eq hRank hi, BitVec.toNat_append, BitVec.extractLsb'_toNat,
    BitVec.extractLsb'_toNat, BitVec.toNat_ofNat, Nat.shiftRight_eq_div_pow, Nat.shiftRight_zero,
    Nat.shiftLeft_eq, Nat.mul_comm _ (2 ^ 9),
    ← Nat.two_pow_add_eq_or_of_lt (Nat.mod_lt _ (Nat.two_pow_pos 9))]
  omega

/-- Workers have registers of their own. -/
theorem qpIndex_switchQpn_inj {rank rank' i : ℕ} (hRank : rank < 32) (hRank' : rank' < 32)
    (hi : i < 2 ^ 16)
    (h : qpIndex (BitVec.ofNat 24 (switchQpn rank i)) =
      qpIndex (BitVec.ofNat 24 (switchQpn rank' i))) : rank = rank' := by
  have hNat := congrArg BitVec.toNat h
  rw [qpIndex_switchQpn hRank hi, qpIndex_switchQpn hRank' hi] at hNat
  omega

/-- The pool index that the receive stage finds for packet `j` of a message on queue pair
`i`, whatever its first sequence number and the register before it. -/
def messagePoolIndex (flags : Client.Flags) (psn : BitVec 24) (data : ReceiverData) (i j : ℕ)
    (set : Bool) : PoolIndex :=
  (receiveMessage psn (Client.rkeyOfSet flags i set) data j).2.extractLsb' 0 15

/-- The layout for any number of packets per message. -/
theorem messagePoolIndex_toNat {flags : Client.Flags} (psn : BitVec 24) (data : ReceiverData)
    {i j : ℕ} {set : Bool}
    (hFits : 2 * (i * (flags.messageSize / flags.packetSize) + j) + set.toNat < 2 ^ 15) :
    (messagePoolIndex flags psn data i j set).toNat =
      2 * (i * (flags.messageSize / flags.packetSize) + j) + set.toNat := by
  have hKey : (Client.rkeyOfSet flags i set).toNat =
      2 * (i * (flags.messageSize / flags.packetSize)) + set.toNat := by
    rw [rkeyOfSet_eq, BitVec.toNat_ofNat, Nat.mod_eq_of_lt (by omega)]
  obtain ⟨-, -, hRead⟩ := receiveMessage_eq psn hKey data (j := j) (by omega)
  unfold messagePoolIndex
  rw [BitVec.extractLsb'_toNat, hRead, Nat.shiftRight_zero]
  omega

/-- The queue pairs of all workers have registers of their own, and the packets of all
messages of a worker have pool indices of their own, within the register arrays. -/
structure AliasFree (flags : Client.Flags) (ranks : List ℕ) : Prop where
  qpIndex : ∀ r ∈ ranks, ∀ r' ∈ ranks, ∀ i < flags.cores * flags.slotsPerCore,
    ∀ i' < flags.cores * flags.slotsPerCore,
    qpIndex (BitVec.ofNat 24 (switchQpn r i)) = qpIndex (BitVec.ofNat 24 (switchQpn r' i')) →
      r = r' ∧ i = i'
  poolIndex : ∀ i < flags.cores * flags.slotsPerCore, ∀ i' < flags.cores * flags.slotsPerCore,
    ∀ j < flags.messageSize / flags.packetSize, ∀ j' < flags.messageSize / flags.packetSize,
    ∀ set set' psn psn' data data',
    messagePoolIndex flags psn data i j set = messagePoolIndex flags psn' data' i' j' set' →
      i = i' ∧ j = j' ∧ set = set'
  inBounds : ∀ i < flags.cores * flags.slotsPerCore, ∀ j < flags.messageSize / flags.packetSize,
    ∀ set psn data, (messagePoolIndex flags psn data i j set).toNat < registerSize

/-- The pool index of packet `j` of message `i` determines both. -/
theorem slot_inj {P i i' j j' : ℕ} (hj : j < P) (hj' : j' < P) (h : i * P + j = i' * P + j') :
    i = i' ∧ j = j' := by
  have hPos : 0 < P := by omega
  have hDiv : ∀ a b, b < P → (a * P + b) / P = a := fun a b hb => by
    rw [Nat.mul_comm, Nat.mul_add_div hPos, Nat.div_eq_of_lt hb, Nat.add_zero]
  have hi : i = i' := by rw [← hDiv i j hj, h, hDiv i' j' hj']
  subst hi
  exact ⟨rfl, by omega⟩

namespace AliasFree

variable {flags : Client.Flags} {ranks : List ℕ}

/-- The packet at the end of the register arrays is beyond them. -/
theorem slots_le (h : AliasFree flags ranks) (hPos : 0 < flags.messageSize / flags.packetSize) :
    2 * (flags.cores * flags.slotsPerCore * (flags.messageSize / flags.packetSize)) ≤
      registerSize := by
  by_contra hMany
  have hBeyond : 8192 < flags.cores * flags.slotsPerCore *
      (flags.messageSize / flags.packetSize) := by
    unfold registerSize at hMany
    omega
  have hi := (Nat.div_lt_iff_lt_mul hPos).mpr hBeyond
  have hSplit := Nat.div_add_mod' 8192 (flags.messageSize / flags.packetSize)
  have hLt := h.inBounds _ hi _ (Nat.mod_lt 8192 hPos) false 0 {}
  rw [messagePoolIndex_toNat _ _ (by rw [hSplit]; decide), hSplit] at hLt
  exact absurd hLt (by decide)

end AliasFree

end SwitchML
