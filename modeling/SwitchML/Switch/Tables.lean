import SwitchML.Lib.MatchAction
import SwitchML.Switch.Types

/-!
# SwitchML switch — the stateful tables of a pass

The controls that a SwitchML packet meets in a pass before `NextStep`:
`ReconstructWorkerBitmap`, `UpdateAndCheckWorkerBitmap`, `CountWorkers`,
`ExponentMax` and `SignificandSum`. Each is a match-action table with the
program's constant entries in their order, and register actions that take the
old register value to the new one and the value read.

Where an action leaves one of its control's `out` parameters unassigned, the
header field behind it keeps its value: the compiled controls write the header
in place.
-/

namespace SwitchML

open MatchAction

-- ---------------------------------------------------------------------------
-- ReconstructWorkerBitmap
-- ---------------------------------------------------------------------------

/-- `reconstruct_worker_bitmap`: the bit of the worker, from the low five bits of
its id. -/
def reconstructWorkerBitmapEntries : Table WorkerId (Option WorkerBitmap) :=
  (List.range 32).map fun i => (KeyField.masked (BitVec.ofNat 16 i) 0x1f, some (1 <<< i))

/-- Restore the worker's bit and the slot status from the metadata, for the passes
after the first. -/
def reconstructWorkerBitmap (st : PassState) : PassState :=
  let st := match lookup none st.md.workerId reconstructWorkerBitmapEntries with
    | some bitmap => { st with workerBitmap := bitmap }
    | none => st
  let st := if st.md.bitmapBeforeNonzero then
      { st with workerBitmapBefore := 0xffffffff } else st
  let st := if st.md.mapResultNonzero then { st with mapResult := 0xffffffff } else st
  if st.md.firstFlag then { st with firstLastFlag := 0 }
  else if st.md.lastFlag then { st with firstLastFlag := 1 }
  else st

-- ---------------------------------------------------------------------------
-- UpdateAndCheckWorkerBitmap
-- ---------------------------------------------------------------------------

/-- Add the worker to the first set, remove it from the second; reads the first. -/
def workerBitmapUpdateSet0 (bitmap : WorkerBitmap) (value : WorkerBitmapPair) :
    WorkerBitmapPair × WorkerBitmap :=
  ({ first := value.first ||| bitmap, second := value.second &&& ~~~bitmap }, value.first)

/-- Add the worker to the second set, remove it from the first; reads the second. -/
def workerBitmapUpdateSet1 (bitmap : WorkerBitmap) (value : WorkerBitmapPair) :
    WorkerBitmapPair × WorkerBitmap :=
  ({ first := value.first &&& ~~~bitmap, second := value.second ||| bitmap }, value.second)

inductive BitmapAction where
  | updateWorkerBitmapSet0Action
  | updateWorkerBitmapSet1Action
  | simulateDrop
  | noAction
deriving DecidableEq, Repr

structure BitmapKey where
  poolIndex : PoolIndex
  packetType : PacketType
  ingressDropProbability : DropProbability

/-- One row of `update_and_check_worker_bitmap`. -/
def bitmapRow (pool : KeyField PoolIndex) (ty : PacketType) (drop : KeyField DropProbability)
    (act : BitmapAction) : KeyField BitmapKey × BitmapAction :=
  (fun k => pool k.poolIndex && decide (k.packetType = ty) && drop k.ingressDropProbability,
    act)

def updateAndCheckWorkerBitmapEntries : Table BitmapKey BitmapAction :=
  bitmapRow KeyField.any (.consume 0) (KeyField.exact 0xffff) .simulateDrop ::
  (List.finRange 4).flatMap fun i =>
    [bitmapRow (KeyField.masked 0 1) (.consume i) KeyField.any .updateWorkerBitmapSet0Action,
     bitmapRow (KeyField.masked 1 1) (.consume i) KeyField.any .updateWorkerBitmapSet1Action]

/-- `check_worker_bitmap_action`: nonzero if the packet is a retransmission. -/
def checkWorkerBitmapAction (st : PassState) : PassState :=
  { st with mapResult := st.workerBitmapBefore &&& st.workerBitmap }

/-- Record that the worker's packet was received and whether it was before. -/
def updateAndCheckWorkerBitmap (regs : Registers) (st : PassState) :
    Registers × PassState :=
  let slot := st.md.poolIndex.slot
  let update (f : WorkerBitmap → WorkerBitmapPair → WorkerBitmapPair × WorkerBitmap) :=
    let (value, before) := f st.workerBitmap (regs.workerBitmap slot)
    ({ regs with workerBitmap := Function.update regs.workerBitmap slot value },
      checkWorkerBitmapAction { st with workerBitmapBefore := before })
  match lookup .noAction
      ⟨st.md.poolIndex, st.md.packetType, st.ingressDropProbability⟩
      updateAndCheckWorkerBitmapEntries with
  | .updateWorkerBitmapSet0Action => update workerBitmapUpdateSet0
  | .updateWorkerBitmapSet1Action => update workerBitmapUpdateSet1
  | .simulateDrop =>
    (regs, { st with dropCtl := true, md := { st.md with packetType := .ignore } })
  | .noAction => (regs, st)

-- ---------------------------------------------------------------------------
-- CountWorkers
-- ---------------------------------------------------------------------------

/-- Count down, starting over from zero; reads the value before. -/
def workerCountAction (numWorkers value : NumWorkers) : NumWorkers × NumWorkers :=
  (if value = 0 then numWorkers - 1 else value - 1, value)

inductive CountAction where
  | singleWorkerCountAction
  | singleWorkerReadAction
  | countWorkersAction
  | readCountWorkersAction
  | noAction
deriving DecidableEq, Repr

structure CountKey where
  numWorkers : NumWorkers
  mapResult : WorkerBitmap
  packetType : PacketType

/-- The four rows of `count_workers` that differ in the `CONSUME` pass only. -/
def countRows (num : KeyField NumWorkers) (map : KeyField WorkerBitmap) (act : CountAction) :
    Table CountKey CountAction :=
  (List.finRange 4).map fun i =>
    (fun k => num k.numWorkers && map k.mapResult && decide (k.packetType = .consume i), act)

def countWorkersEntries : Table CountKey CountAction :=
  countRows (KeyField.exact 1) (KeyField.exact 0) .singleWorkerCountAction ++
  countRows (KeyField.exact 1) KeyField.any .singleWorkerReadAction ++
  countRows KeyField.any (KeyField.exact 0) .countWorkersAction ++
  countRows KeyField.any KeyField.any .readCountWorkersAction

/-- Detect the first packet (flag 0) and the last packet (flag 1) of a slot. -/
def countWorkers (regs : Registers) (st : PassState) : Registers × PassState :=
  let p := st.md.poolIndex
  let (value, read) := workerCountAction st.md.numWorkers (regs.workerCount p)
  let counted := { regs with workerCount := Function.update regs.workerCount p value }
  match lookup .noAction ⟨st.md.numWorkers, st.mapResult, st.md.packetType⟩
      countWorkersEntries with
  | .singleWorkerCountAction => (counted, { st with firstLastFlag := 1 })
  | .singleWorkerReadAction => (regs, { st with firstLastFlag := 0 })
  | .countWorkersAction => (counted, { st with firstLastFlag := read })
  | .readCountWorkersAction => (regs, { st with firstLastFlag := regs.workerCount p })
  | .noAction => (regs, st)

-- ---------------------------------------------------------------------------
-- ExponentMax
-- ---------------------------------------------------------------------------

inductive ExponentAction where
  | exponentWriteRead0Action
  | exponentMaxRead0Action
  | exponentRead0Action
  | exponentRead1Action
  | noAction
deriving DecidableEq, Repr

/-- The key of `exponent_max` and of `significand_sum`. -/
structure SlotKey where
  workerBitmapBefore : WorkerBitmap
  mapResult : WorkerBitmap
  packetType : PacketType

def slotRow {α : Type} (before map : KeyField WorkerBitmap) (ty : PacketType) (act : α) :
    KeyField SlotKey × α :=
  (fun k => before k.workerBitmapBefore && map k.mapResult && decide (k.packetType = ty), act)

def exponentMaxEntries : Table SlotKey ExponentAction :=
  [slotRow (KeyField.exact 0) KeyField.any (.consume 0) .exponentWriteRead0Action,
   slotRow KeyField.any (KeyField.exact 0) (.consume 0) .exponentMaxRead0Action,
   slotRow KeyField.any KeyField.any (.consume 0) .exponentRead0Action,
   slotRow KeyField.any KeyField.any (.harvest 7) .exponentRead1Action]

/-- The `max` of two exponents, unsigned. -/
def exponentMaxOf (a b : Exponent8) : Exponent8 := if a.toNat < b.toNat then b else a

/-- Update or read the maximum exponents of the slot. -/
def exponentMax (regs : Registers) (st : PassState) : Registers × PassState :=
  let p := st.md.poolIndex
  let value := regs.exponents p
  let write (value : Exponent8Pair) : Registers × PassState :=
    ({ regs with exponents := Function.update regs.exponents p value },
      { st with exponents := { st.exponents with e0 := value.first } })
  match lookup .noAction ⟨st.workerBitmapBefore, st.mapResult, st.md.packetType⟩
      exponentMaxEntries with
  | .exponentWriteRead0Action => write ⟨st.exponents.e0, st.exponents.e1⟩
  | .exponentMaxRead0Action =>
    write ⟨exponentMaxOf value.first st.exponents.e0, exponentMaxOf value.second st.exponents.e1⟩
  | .exponentRead0Action =>
    (regs, { st with exponents := { st.exponents with e0 := value.first } })
  | .exponentRead1Action =>
    (regs, { st with exponents := { st.exponents with e1 := value.second } })
  | .noAction => (regs, st)

-- ---------------------------------------------------------------------------
-- SignificandSum
-- ---------------------------------------------------------------------------

inductive SignificandAction where
  | significandWriteRead1Action
  | significandSumRead1Action
  | significandRead0Action
  | significandRead1Action
  | noAction
deriving DecidableEq, Repr

def significandSumEntries : Table SlotKey SignificandAction :=
  (List.finRange 4).map (fun i =>
    slotRow (KeyField.exact 0) KeyField.any (.consume i) .significandWriteRead1Action) ++
  (List.finRange 4).map (fun i =>
    slotRow KeyField.any (KeyField.exact 0) (.consume i) .significandSumRead1Action) ++
  (List.finRange 4).map (fun i =>
    slotRow KeyField.any KeyField.any (.consume i) .significandRead0Action) ++
  [slotRow KeyField.any KeyField.any (.harvest 0) .significandRead1Action,
   slotRow KeyField.any KeyField.any (.harvest 1) .significandRead0Action,
   slotRow KeyField.any KeyField.any (.harvest 2) .significandRead1Action,
   slotRow KeyField.any KeyField.any (.harvest 3) .significandRead0Action,
   slotRow KeyField.any KeyField.any (.harvest 4) .significandRead1Action,
   slotRow KeyField.any KeyField.any (.harvest 5) .significandRead0Action,
   slotRow KeyField.any KeyField.any (.harvest 6) .significandRead1Action,
   slotRow KeyField.any KeyField.any (.harvest 7) .significandRead0Action]

/-- One `SignificandSum` control: its register array, and the words of the two
data headers it reads and writes. -/
def significandSum (act : SignificandAction) (p : PoolIndex)
    (significands : PoolIndex → SignificandPair) (significand0 significand1 : Significand) :
    (PoolIndex → SignificandPair) × Significand × Significand :=
  let value := significands p
  match act with
  | .significandWriteRead1Action =>
    (Function.update significands p ⟨significand0, significand1⟩, significand0, significand1)
  | .significandSumRead1Action =>
    let value : SignificandPair :=
      ⟨value.first + significand0, value.second + significand1⟩
    (Function.update significands p value, significand0, value.second)
  | .significandRead0Action => (significands, value.first, significand1)
  | .significandRead1Action => (significands, significand0, value.second)
  | .noAction => (significands, significand0, significand1)

/-- The instances `sum00`..`sum31`, one for each word of the data headers. -/
def significandSums (regs : Registers) (st : PassState) : Registers × PassState :=
  let act := lookup .noAction ⟨st.workerBitmapBefore, st.mapResult, st.md.packetType⟩
    significandSumEntries
  let sum (i : Fin 32) :=
    significandSum act st.md.poolIndex (regs.significands i) (st.d0 i) (st.d1 i)
  ({ regs with significands := fun i => (sum i).1 },
    { st with d0 := fun i => (sum i).2.1, d1 := fun i => (sum i).2.2 })

end SwitchML
