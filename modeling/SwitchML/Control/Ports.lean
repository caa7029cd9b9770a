import SwitchML.Lib.History
import SwitchML.Control.Connect

/-!
# SwitchML control plane — ports

The control plane keeps three accounts of the ports in use: the list `active_ports` of
`Ports`, the record `rids` of the all-ports multicast group in `PRE`, and the group itself
with its nodes in the replication engine. `port_add`, `port_del` and `port_clear_all`
change all three one after the other; an exception on the way leaves what was changed
before it.

* `port_accounts_agree_iff` — the accounts agree after each call of any sequence, if and
  only if no call deletes an active port;
* `portDel_raises` — `port_del` never returns: `worker_del` ends by looking up a port that
  is none of its arguments, when only the record is left to be changed.
-/

namespace SwitchML

open History

-- ---------------------------------------------------------------------------
-- Ports
-- ---------------------------------------------------------------------------

/-- What a call raises. -/
inductive PortError where
  -- the front-panel port and lane name no port of the device
  | noSuchPort
  -- a speed or an error correction that is not in the table
  | keyError
  | alreadyExists
  | notFound
  -- `remove` of an item that is not in the list
  | notInList
  -- a variable that is not defined
  | nameError
deriving DecidableEq, Repr

inductive PortSpeed where
  | bfSpeed10G | bfSpeed25G | bfSpeed40G | bfSpeed50G | bfSpeed100G
deriving DecidableEq, Repr

inductive PortFec where
  | bfFecTypNone | bfFecTypFc | bfFecTypRs
deriving DecidableEq, Repr

/-- The fields of a `$PORT` entry that differ from port to port. -/
structure PortConfig where
  speed : PortSpeed
  fec : PortFec
deriving DecidableEq, Repr

def speedConversionTable : ℕ → Option PortSpeed
  | 10 => some .bfSpeed10G
  | 25 => some .bfSpeed25G
  | 40 => some .bfSpeed40G
  | 50 => some .bfSpeed50G
  | 100 => some .bfSpeed100G
  | _ => none

def fecConversionTable : String → Option PortFec
  | "none" => some .bfFecTypNone
  | "fc" => some .bfFecTypFc
  | "rs" => some .bfFecTypRs
  | _ => none

/-- The list of `Ports`, and the `$PORT` table of the device. -/
structure Ports where
  activePorts : List ℕ
  portTable : ℕ → Option PortConfig

/-- `four_pipe_dev_ports`: all external ports. -/
def fourPipeDevPorts : List ℕ :=
  List.range' 0 64 ++ List.range' 128 64 ++ (List.range' 256 64 ++ List.range' 384 64)

namespace Ports

/-- `add_ports` for one port. -/
def addPorts (s : Ports) (devPort speed : ℕ) (fec : String) : Ports × Option PortError :=
  match speedConversionTable speed, fecConversionTable fec with
  | some speed, some fec =>
    if (s.portTable devPort).isSome then (s, some .alreadyExists)
    else
      ({ activePorts := s.activePorts ++ [devPort]
         portTable := Function.update s.portTable devPort (some ⟨speed, fec⟩) }, none)
  | _, _ => (s, some .keyError)

/-- `Ports.port_add`. -/
def portAdd (s : Ports) (devPort speed : ℕ) (fec : String) : Ports × Option PortError :=
  if devPort ∈ s.activePorts then (s, none) else s.addPorts devPort speed fec

/-- The table after a batch of keys was deleted. If the driver is strict, it stops at the
first key that is not there. -/
def deleteKeys (strict : Bool) :
    (ℕ → Option PortConfig) → List ℕ → (ℕ → Option PortConfig) × Option PortError
  | table, [] => (table, none)
  | table, devPort :: devPorts =>
    if strict && (table devPort).isNone then (table, some .notFound)
    else deleteKeys strict (Function.update table devPort none) devPorts

/-- `delete_all_ports`. -/
def deleteAllPorts (strict : Bool) (s : Ports) : Ports × Option PortError :=
  match deleteKeys strict s.portTable fourPipeDevPorts with
  | (table, some e) => ({ s with portTable := table }, some e)
  | (table, none) => ({ activePorts := [], portTable := table }, none)

/-- `port_delete`. -/
def portDelete (s : Ports) (devPort : ℕ) : Ports × Option PortError :=
  if devPort ∈ s.activePorts then
    let s := { s with activePorts := s.activePorts.erase devPort }
    if (s.portTable devPort).isNone then (s, some .notFound)
    else ({ s with portTable := Function.update s.portTable devPort none }, none)
  else (s, some .notInList)

end Ports

-- ---------------------------------------------------------------------------
-- Job
-- ---------------------------------------------------------------------------

/-- `PRE.worker_del`. Its last two lines use `port` and `lane`, which it does not have. -/
def Pre.workerDel (s : Pre) (rid : ℕ) : Pre × PortError :=
  if rid ∈ s.group then
    let s := { s with group := s.group.erase rid }
    if (s.nodes rid).isNone then (s, .notFound)
    else ({ s with nodes := Function.update s.nodes rid none }, .nameError)
  else (s, .notFound)

/-- The three accounts; `pre` is that of the all-ports group. -/
structure PortBooks where
  ports : Ports
  pre : Pre

inductive PortCall where
  | add (port lane speed : ℕ) (fec : String)
  | del (port lane : ℕ)
  | clearAll
deriving DecidableEq, Repr

/-- The node of a port in the all-ports group. -/
def portRid (devPort : ℕ) : ℕ := 0x8000 + devPort

namespace PortBooks

-- the device's table of ports, and whether deleting what is not in `$PORT` fails
variable (devPorts : ℕ → ℕ → Option PortId) (strict : Bool)

/-- `Job.port_add`. -/
def portAdd (s : PortBooks) (port lane speed : ℕ) (fec : String) :
    PortBooks × Option PortError :=
  match devPorts port lane with
  | none => (s, some .noSuchPort)
  | some d =>
    match s.ports.portAdd d.toNat speed fec with
    | (ports, some e) => ({ s with ports := ports }, some e)
    | (ports, none) =>
      ({ ports := ports, pre := s.pre.workerAdd (portRid d.toNat) d.toNat }, none)

/-- `Job.port_del`. -/
def portDel (s : PortBooks) (port lane : ℕ) : PortBooks × Option PortError :=
  match devPorts port lane with
  | none => (s, some .noSuchPort)
  | some d =>
    match s.ports.portDelete d.toNat with
    | (ports, some e) => ({ s with ports := ports }, some e)
    | (ports, none) =>
      let (pre, e) := s.pre.workerDel (portRid d.toNat)
      ({ ports := ports, pre := pre }, some e)

/-- `Job.port_clear_all`. -/
def portClearAll (s : PortBooks) : PortBooks × Option PortError :=
  match s.ports.deleteAllPorts strict with
  | (ports, some e) => ({ s with ports := ports }, some e)
  | (ports, none) => ({ ports := ports, pre := s.pre.workerClearAll }, none)

def call (s : PortBooks) : PortCall → PortBooks × Option PortError
  | .add port lane speed fec => s.portAdd devPorts port lane speed fec
  | .del port lane => s.portDel devPorts port lane
  | .clearAll => s.portClearAll strict

/-- The state after a list of calls, whether they return or raise. -/
def run (s : PortBooks) (calls : List PortCall) : PortBooks :=
  calls.foldl (fun s c => (s.call devPorts strict c).1) s

/-- The control plane as it starts. The tables of the device may hold anything but members
of the group. -/
def initial (portTable : ℕ → Option PortConfig) (nodes : ℕ → Option ℕ) : PortBooks where
  ports := { activePorts := [], portTable := portTable }
  pre := { rids := [], nodes := nodes, group := ∅ }

/-- The three accounts are of the same ports. -/
def Agree (s : PortBooks) : Prop :=
  (∀ d, d ∈ s.ports.activePorts ↔ d ∈ s.pre.rids.map Prod.fst) ∧
  ∀ d, d ∈ s.ports.activePorts ↔ ∃ r ∈ s.pre.group, s.pre.nodes r = some d

/-- The call is not a `port_del` of an active port. -/
def SparesActive (s : PortBooks) : PortCall → Prop
  | .del port lane => ∀ d ∈ devPorts port lane, d.toNat ∉ s.ports.activePorts
  | _ => True

-- ---------------------------------------------------------------------------
-- One call
-- ---------------------------------------------------------------------------

/-- What the accounts look like as long as they agree: the node of a port is its own. -/
structure Kept (s : PortBooks) : Prop where
  nodup : s.ports.activePorts.Nodup
  small : ∀ d ∈ s.ports.activePorts, d < 0x8000
  rids : ∀ x, x ∈ s.pre.rids ↔ ∃ d ∈ s.ports.activePorts, x = (d, portRid d)
  group : ∀ r, r ∈ s.pre.group ↔ ∃ d ∈ s.ports.activePorts, r = portRid d
  nodes : ∀ d ∈ s.ports.activePorts, s.pre.nodes (portRid d) = some d

variable {devPorts strict} {s : PortBooks}

theorem Kept.agree (h : s.Kept) : s.Agree := by
  refine ⟨fun d => ?_, fun d => ?_⟩
  · simp [h.rids]
  · constructor
    · intro hd
      exact ⟨portRid d, (h.group _).mpr ⟨d, hd, rfl⟩, h.nodes d hd⟩
    · rintro ⟨r, hr, hNode⟩
      obtain ⟨d', hd', rfl⟩ := (h.group r).mp hr
      rw [h.nodes d' hd'] at hNode
      exact Option.some.inj hNode ▸ hd'

theorem Kept.of_eq (h : s.Kept) {ports : Ports} (hActive : ports.activePorts =
    s.ports.activePorts) : Kept { s with ports := ports } where
  nodup := hActive ▸ h.nodup
  small d hd := h.small d (hActive ▸ hd)
  rids x := by simp only [hActive, h.rids]
  group r := by simp only [hActive, h.group]
  nodes d hd := h.nodes d (hActive ▸ hd)

/-- `worker_add` never finds the node of a port among the ports. -/
theorem Kept.workerAdd (h : s.Kept) {d : ℕ} (hd : d < 0x8000) {ports : Ports}
    (hNodup : ports.activePorts.Nodup)
    (hActive : ∀ d', d' ∈ ports.activePorts ↔ d' = d ∨ d' ∈ s.ports.activePorts) :
    Kept { ports := ports, pre := s.pre.workerAdd (portRid d) d } := by
  have hNew : (s.pre.rids.any fun x => decide (x.1 = portRid d)) = false := by
    rw [List.any_eq_false]
    intro x hx
    obtain ⟨d', hd', rfl⟩ := (h.rids x).mp hx
    have hSmall := h.small d' hd'
    have hNe : d' ≠ portRid d := by
      unfold portRid
      omega
    simpa using hNe
  obtain ⟨hRids, hNodes, hGroup⟩ := Pre.workerAdd_new hNew d
  refine ⟨hNodup, fun d' hd' => ?_, fun x => ?_, fun r => ?_, fun d' hd' => ?_⟩
  · rcases (hActive d').mp hd' with rfl | hd'
    · exact hd
    · exact h.small d' hd'
  · simp only [hRids, List.mem_cons, List.mem_filter, decide_eq_true_eq, h.rids, hActive]
    constructor
    · rintro (rfl | ⟨⟨d', hd', rfl⟩, -⟩)
      · exact ⟨d, .inl rfl, rfl⟩
      · exact ⟨d', .inr hd', rfl⟩
    · rintro ⟨d', hd', rfl⟩
      by_cases hEq : d' = d
      · exact .inl (by rw [hEq])
      · exact .inr ⟨⟨d', hd'.resolve_left hEq, rfl⟩, hEq⟩
  · simp only [hGroup, Finset.mem_insert, h.group, hActive]
    constructor
    · rintro (rfl | ⟨d', hd', rfl⟩)
      · exact ⟨d, .inl rfl, rfl⟩
      · exact ⟨d', .inr hd', rfl⟩
    · rintro ⟨d', rfl | hd', rfl⟩
      · exact .inl rfl
      · exact .inr ⟨d', hd', rfl⟩
  · dsimp only
    rw [hNodes]
    by_cases hEq : d' = d
    · rw [hEq, Function.update_self]
    · have hRid : portRid d' ≠ portRid d := by
        simp only [portRid]
        omega
      rw [Function.update_of_ne hRid]
      exact h.nodes d' (((hActive d').mp hd').resolve_left hEq)

/-- What `Ports.port_add` does: it raises and changes nothing, or the port is active. -/
theorem portAdd_cases (ports : Ports) (d speed : ℕ) (fec : String) :
    (∃ e, ports.portAdd d speed fec = (ports, some e)) ∨
    ∃ ports', ports.portAdd d speed fec = (ports', none) ∧
      (ports.activePorts.Nodup → ports'.activePorts.Nodup) ∧
      ∀ d', d' ∈ ports'.activePorts ↔ d' = d ∨ d' ∈ ports.activePorts := by
  unfold Ports.portAdd
  split
  · next hd =>
    refine .inr ⟨ports, rfl, id, fun d' => ⟨.inr, ?_⟩⟩
    rintro (rfl | hd')
    · exact hd
    · exact hd'
  next hd =>
  unfold Ports.addPorts
  split
  · split
    · exact .inl ⟨_, rfl⟩
    · refine .inr ⟨_, rfl, fun hNodup => ?_, fun d' => ?_⟩
      · exact List.nodup_append_comm.mp (List.nodup_cons.mpr ⟨hd, hNodup⟩)
      · simp [or_comm]
  · exact .inl ⟨_, rfl⟩

theorem Kept.portAdd (h : s.Kept) (port lane speed : ℕ) (fec : String) :
    (s.portAdd devPorts port lane speed fec).1.Kept := by
  unfold PortBooks.portAdd
  cases devPorts port lane with
  | none => exact h
  | some d =>
    have hSmall : d.toNat < 0x8000 := by
      have := d.isLt
      omega
    dsimp only
    obtain ⟨e, hPorts⟩ | ⟨ports, hPorts, hNodup, hActive⟩ :=
      portAdd_cases s.ports d.toNat speed fec
    · rw [hPorts]
      exact h
    · rw [hPorts]
      exact h.workerAdd hSmall (hNodup h.nodup) hActive

theorem Kept.portClearAll (h : s.Kept) : (s.portClearAll strict).1.Kept := by
  unfold PortBooks.portClearAll Ports.deleteAllPorts
  cases hTable : Ports.deleteKeys strict s.ports.portTable fourPipeDevPorts with
  | mk table error =>
    cases error with
    | some e => exact h.of_eq rfl
    | none =>
      obtain ⟨hRids, hGroup⟩ := s.pre.workerClearAll_eq
      refine ⟨List.nodup_nil, by simp, fun x => by simp [hRids], fun r => ?_, by simp⟩
      refine iff_of_false (fun hr => ?_) (by simp)
      obtain ⟨hMem, hNone⟩ := (hGroup r).mp hr
      obtain ⟨d, hd, rfl⟩ := (h.group r).mp hMem
      exact hNone (d, portRid d) ((h.rids _).mpr ⟨d, hd, rfl⟩) rfl

theorem portDel_spares {port lane : ℕ} (hSpares : s.SparesActive devPorts (.del port lane)) :
    (s.portDel devPorts port lane).1 = s := by
  unfold portDel
  cases hPort : devPorts port lane with
  | none => rfl
  | some d =>
    have hDelete : s.ports.portDelete d.toNat = (s.ports, some .notInList) :=
      if_neg (hSpares d hPort)
    dsimp only
    rw [hDelete]

/-- `port_del` of an active port takes it off the list, and leaves it in the record. -/
theorem portDel_active {port lane : ℕ} {d : PortId} (hPort : devPorts port lane = some d)
    (hd : d.toNat ∈ s.ports.activePorts) :
    (s.portDel devPorts port lane).1.ports.activePorts = s.ports.activePorts.erase d.toNat ∧
      (s.portDel devPorts port lane).1.pre.rids = s.pre.rids := by
  have hRids : ∀ pre : Pre, (pre.workerDel (portRid d.toNat)).1.rids = pre.rids := by
    intro pre
    unfold Pre.workerDel
    split
    · dsimp only
      split <;> rfl
    · rfl
  unfold portDel Ports.portDelete
  rw [hPort]
  dsimp only
  rw [if_pos hd]
  split
  · next hSplit =>
    split at hSplit
    · cases hSplit
      exact ⟨rfl, rfl⟩
    · cases hSplit
  · next hSplit =>
    split at hSplit
    · cases hSplit
    · cases hSplit
      exact ⟨rfl, hRids s.pre⟩

/-- **Step lemma.** The accounts go on to agree unless an active port is deleted. -/
theorem Kept.call (h : s.Kept) {c : PortCall} (hSpares : s.SparesActive devPorts c) :
    (s.call devPorts strict c).1.Kept := by
  cases c with
  | add port lane speed fec => exact h.portAdd port lane speed fec
  | del port lane => exact (portDel_spares hSpares).symm ▸ h
  | clearAll => exact h.portClearAll

theorem Kept.call_disagrees (h : s.Kept) {c : PortCall}
    (hDeletes : ¬ s.SparesActive devPorts c) : ¬ (s.call devPorts strict c).1.Agree := by
  cases c with
  | add port lane speed fec => exact absurd trivial hDeletes
  | clearAll => exact absurd trivial hDeletes
  | del port lane =>
    simp only [SparesActive, not_forall, not_not] at hDeletes
    obtain ⟨d, hPort, hd⟩ := hDeletes
    obtain ⟨hActive, hRids⟩ := portDel_active hPort hd
    rintro ⟨hAgree, -⟩
    have hListed := (hAgree d.toNat).mpr (by
      rw [PortBooks.call, hRids]
      exact List.mem_map_of_mem ((h.rids _).mpr ⟨d.toNat, hd, rfl⟩))
    rw [PortBooks.call, hActive] at hListed
    exact (h.nodup.not_mem_erase) hListed

/-- No call of `port_del` returns. -/
theorem portDel_raises (port lane : ℕ) : (s.portDel devPorts port lane).2 ≠ none := by
  unfold portDel
  cases devPorts port lane with
  | none => simp
  | some d =>
    dsimp only
    split <;> simp

/-- **When the accounts agree.** For any calls, whether they return or raise. -/
theorem port_accounts_agree_iff (devPorts : ℕ → ℕ → Option PortId) (strict : Bool)
    (portTable : ℕ → Option PortConfig) (nodes : ℕ → Option ℕ) (calls : List PortCall) :
    (∀ init, init <+: calls → ((initial portTable nodes).run devPorts strict init).Agree) ↔
      Throughout (fun s c => (s.call devPorts strict c).1) (SparesActive devPorts)
        (initial portTable nodes) calls := by
  have hInitial : (initial portTable nodes).Kept :=
    ⟨List.nodup_nil, by simp [initial], by simp [initial], by simp [initial], by simp [initial]⟩
  have hKeeps : ∀ (s : PortBooks) c, s.Kept → s.SparesActive devPorts c →
      (s.call devPorts strict c).1.Kept := fun _ _ h => h.call
  have hBreaks : ∀ (s : PortBooks) c, s.Kept → ¬ s.SparesActive devPorts c →
      ¬ (s.call devPorts strict c).1.Agree := fun _ _ h => h.call_disagrees
  exact holds_after_each_iff (fun _ h => h.agree) hKeeps hBreaks hInitial calls

/-- A port is added and deleted again: the call raises, and the record keeps the port. -/
theorem deleted_port_recorded :
    let devPorts : ℕ → ℕ → Option PortId := fun port _ => if port = 1 then some 8 else none
    let added := (initial (fun _ => none) fun _ => none).call devPorts true (.add 1 0 100 "rs")
    let deleted := added.1.call devPorts true (.del 1 0)
    added.2 = none ∧ added.1.ports.activePorts = [8] ∧
      deleted.2 = some .nameError ∧ deleted.1.ports.activePorts = [] ∧
      deleted.1.pre.rids = [(8, 0x8008)] ∧ deleted.1.pre.group = ∅ ∧ ¬ deleted.1.Agree := by
  intro devPorts added deleted
  have hFacts : added.2 = none ∧ added.1.ports.activePorts = [8] ∧
      deleted.2 = some .nameError ∧ deleted.1.ports.activePorts = [] ∧
      deleted.1.pre.rids = [(8, 0x8008)] ∧ deleted.1.pre.group = ∅ := by decide +kernel
  obtain ⟨h1, h2, h3, hActive, hRids, hGroup⟩ := hFacts
  refine ⟨h1, h2, h3, hActive, hRids, hGroup, fun hAgree => ?_⟩
  have hListed := (hAgree.1 8).mpr (by simp [hRids])
  simp [hActive] at hListed

end PortBooks

end SwitchML
