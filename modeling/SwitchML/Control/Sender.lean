import SwitchML.Client.Thread
import SwitchML.Protocol.Receiving

/-!
# SwitchML control plane — the queue pairs of the replies

`add_write_worker` fills the egress table that finds the queue pair of a reply by its
pool index. A queue pair has a slot for each packet of a message, in both sets, and four
places compute this layout on their own: the client (the rkey), the receive stage (the
pool index of each packet), the control plane (the table) and the client again (the reply
it waits for).

* `Platform` — what the control plane relies on and its own code does not determine;
* `installEntries_filter` — the entries of a worker do not overlap, and cover the pool
  indices of its queue pairs;
* `slot_map_agrees` — all four places agree.
-/

namespace SwitchML

-- ---------------------------------------------------------------------------
-- The client
-- ---------------------------------------------------------------------------

namespace Client

/-- The rkey with the set bit as given; each message that is posted flips it. -/
def rkeyOfSet (flags : Flags) (i : ℕ) (set : Bool) : Rkey :=
  if set then shiftedPoolIndex flags i else shiftedPoolIndex flags i ^^^ 1

end Client

-- ---------------------------------------------------------------------------
-- The switch
-- ---------------------------------------------------------------------------

/-- The register of a queue pair and what is read from it for packet `j` of a message that
starts with number `psn`, when all packets of the message arrive. -/
def receiveMessage (psn : BitVec 24) (rKey : BitVec 32) (data : ReceiverData) :
    ℕ → ReceiverData × BitVec 32
  | 0 => receiverResetAction psn rKey data
  | j + 1 =>
    receiverIncrementAction (psn + BitVec.ofNat 24 (j + 1)) (receiveMessage psn rKey data j).1

/-- `set_immediate` of the RDMA sender. -/
def setImmediate (poolIndex : PoolIndex) (exponents : ExponentsMd) : BitVec 32 :=
  0#1 ++ poolIndex ++ exponents.e1 ++ exponents.e0

-- ---------------------------------------------------------------------------
-- The control plane
-- ---------------------------------------------------------------------------

/-- What stops the control plane. -/
inductive ControlError where
  -- the logarithm of a number that is not positive
  | valueError
  -- a shift by a number that is not an integer
  | typeError
  -- the address of the worker is on no known port
  | unknownMac
deriving DecidableEq, Repr

/-- The arithmetic of Python and the driver of the switch. -/
structure Platform where
  -- `math.log(x, 2)`, a quotient of floating point numbers; none if it is not an integer
  log2 : ℕ → Option ℕ
  -- what the data of a table entry is for a number in a field of `w` bits
  store : (w : ℕ) → ℤ → BitVec w
  store_fits : ∀ {w n : ℕ}, n < 2 ^ w → store w n = BitVec.ofNat w n

/-- The `IntEnum` of the control plane. -/
def PacketSize.number : PacketSize → ℕ
  | .mtu128 => 0
  | .mtu256 => 1
  | .mtu512 => 2
  | .mtu1024 => 3

/-- The size that two bits stand for in the switch. -/
def PacketSize.ofBits (bits : BitVec 2) : PacketSize :=
  if bits = 0 then .mtu128 else if bits = 1 then .mtu256 else if bits = 2 then .mtu512
  else .mtu1024

def PacketSize.bytes : PacketSize → ℕ
  | .mtu128 => 128
  | .mtu256 => 256
  | .mtu512 => 512
  | .mtu1024 => 1024

/-- The size in bytes that `add_write_worker` computes with. A number that is none of the
enumeration is taken for a number of bytes. -/
def packetBytes (packetSize : ℤ) : ℤ :=
  if packetSize = 0 then 128
  else if packetSize = 1 then 256
  else if packetSize = 2 then 512
  else if packetSize = 3 then 1024
  else packetSize

/-- `packets_per_message`, with the division of Python, which rounds down. -/
def packetsPerMessage (packetSize messageSize : ℤ) : ℤ := messageSize.fdiv (packetBytes packetSize)

/-- An entry of `fill_in_qpn_and_psn` for a worker: a pattern on the pool index. The number to
compare with is the one that is handed to the driver, whether the field has room for it or
not. -/
structure SenderEntry where
  value : ℕ
  mask : PoolIndex
  qpn : BitVec 24
deriving DecidableEq, Repr

def SenderEntry.hits (e : SenderEntry) (p : PoolIndex) : Bool :=
  decide ((p &&& e.mask).toNat = e.value)

/-- `mask`: without the bits of the packets in a message and without the set. -/
def senderMask (packetsPerMessage : ℕ) : PoolIndex :=
  let firstLastMask := (packetsPerMessage - 1) <<< 1
  0x7ffe#15 &&& ~~~ BitVec.ofNat 15 firstLastMask

/-- The loop over the queue pairs, from number `index` on. -/
def installEntries (shift : ℕ) (mask : PoolIndex) : ℕ → List (BitVec 24) → List SenderEntry
  | _, [] => []
  | index, qpn :: qpns =>
    let shiftedIndex := index <<< shift
    ⟨shiftedIndex, mask, qpn⟩ :: installEntries shift mask (index + 1) qpns

/-- `add_write_worker`: the entries it installs, and the error that stops it. A number of
packets that is not a power of two is only logged, but then its logarithm is no integer
and the first shift fails. -/
def addWriteWorker (platform : Platform) (packetSize messageSize : ℤ) (qpns : List (BitVec 24)) :
    List SenderEntry × Option ControlError :=
  let packetsPerMessage := packetsPerMessage packetSize messageSize
  if packetsPerMessage ≤ 0 then ([], some .valueError)
  else match platform.log2 packetsPerMessage.toNat with
    | none => ([], if qpns = [] then none else some .typeError)
    | some e => (installEntries (e + 1) (senderMask packetsPerMessage.toNat) 0 qpns, none)

/-- The number of packets of a message of `messageSize` bytes. -/
theorem packetsPerMessage_number (packetSize : PacketSize) (messageSize : ℕ) :
    packetsPerMessage packetSize.number messageSize =
      ((messageSize / packetSize.bytes : ℕ) : ℤ) := by
  have hBytes : packetBytes packetSize.number = (packetSize.bytes : ℤ) := by
    cases packetSize <;> rfl
  rw [packetsPerMessage, hBytes, Int.fdiv_eq_ediv_of_nonneg _ (Int.natCast_nonneg _),
    Int.natCast_ediv]

theorem PacketSize.ofBits_number (packetSize : PacketSize) :
    PacketSize.ofBits (BitVec.ofNat 2 packetSize.number) = packetSize := by
  cases packetSize <;> rfl

-- ---------------------------------------------------------------------------
-- The layout
-- ---------------------------------------------------------------------------

/-- The rkey as a number. -/
theorem rkeyOfSet_eq (flags : Client.Flags) (i : ℕ) (set : Bool) :
    Client.rkeyOfSet flags i set =
      BitVec.ofNat 32 (2 * (i * (flags.messageSize / flags.packetSize)) + set.toNat) := by
  unfold Client.rkeyOfSet Client.shiftedPoolIndex
  rw [Nat.mul_comm _ 2]
  generalize i * (flags.messageSize / flags.packetSize) = base
  -- the bits of an even number and of the set do not overlap
  have hSplit : ∀ (v b : ℕ), v < 2 → (2 * base + v).testBit b =
      if b < 1 then v.testBit b else base.testBit (b - 1) := fun v b hv =>
    Nat.testBit_two_pow_mul_add (i := 1) base hv b
  have hEven : ∀ b < 32, (BitVec.ofNat 32 (2 * base)).getLsbD b =
      if b < 1 then false else base.testBit (b - 1) := by
    intro b hb
    rw [BitVec.getLsbD_ofNat, ← Nat.add_zero (2 * base), hSplit 0 b (by decide)]
    simp [hb]
  apply BitVec.eq_of_getLsbD_eq
  intro b hb
  rw [BitVec.getLsbD_ofNat, hSplit _ b (Bool.toNat_lt set)]
  by_cases h0 : b = 0
  · subst h0
    cases set <;> simp
  · have hRest : (1 : BitVec 32).getLsbD b = false := by
      rw [show (1 : BitVec 32) = 1#32 from rfl, BitVec.getLsbD_one]
      simp [h0]
    have h1 : ¬ b < 1 := by omega
    cases set
    · simp only [Bool.false_eq_true, if_false]
      rw [BitVec.getLsbD_xor, BitVec.getLsbD_or, hEven b hb, hRest]
      simp [hb, h1]
    · simp only [if_true]
      rw [BitVec.getLsbD_or, hEven b hb, hRest]
      simp [hb, h1]

/-- Queue pair `i` has the pool indices from `2 ^ (e + 1) * i` on. -/
theorem rkeyOfSet_pow {flags : Client.Flags} {e : ℕ}
    (hP : flags.messageSize / flags.packetSize = 2 ^ e) (i : ℕ) (set : Bool) :
    Client.rkeyOfSet flags i set = BitVec.ofNat 32 (2 ^ (e + 1) * i + set.toNat) := by
  rw [rkeyOfSet_eq, hP, pow_succ]
  congr 2
  ring

/-- The pool index the receive stage counts up to. -/
theorem receiveMessage_eq (psn : BitVec 24) {base : ℕ} {rKey : BitVec 32}
    (hKey : rKey.toNat = base) (data : ReceiverData) {j : ℕ} (hj : base + 2 * j < 2 ^ 31) :
    let r := receiveMessage psn rKey data j
    r.1.nextSequenceNumber = (psn + BitVec.ofNat 24 (j + 1)).setWidth 32 ∧
      r.1.poolIndex = r.2 ∧ r.2.toNat = base + 2 * j := by
  induction j with
  | zero =>
    simp only [receiveMessage, receiverResetAction]
    refine ⟨succ_wraps psn, trivial, by omega⟩
  | succ j ih =>
    obtain ⟨hNext, hRead, hPool⟩ := ih (by omega)
    simp only [receiveMessage, receiverIncrementAction]
    generalize receiveMessage psn rKey data j = r at hNext hRead hPool
    rw [if_pos hNext.symm]
    refine ⟨?_, trivial, ?_⟩
    · dsimp only
      rw [hNext]
      have hWrap := succ_wraps (psn + BitVec.ofNat 24 (j + 1))
      rw [show (psn + BitVec.ofNat 24 (j + 1)).setWidth 32 =
        (psn + BitVec.ofNat 24 (j + 1)).zeroExtend 32 from rfl, hWrap]
      congr 1
      bv_omega
    · dsimp only
      rw [hRead, satAdd_toNat (by omega)]
      omega

/-- The mask of the entries lets the packets of a message and the sets through. -/
theorem senderMask_getLsbD (e : ℕ) : ∀ b < 15,
    (senderMask (2 ^ e)).getLsbD b = decide (e + 1 ≤ b) := by
  intro b hb
  have hConst : ∀ b < 15, (0x7ffe#15).getLsbD b = decide (1 ≤ b) := by decide
  unfold senderMask
  dsimp only
  rw [BitVec.getLsbD_and, BitVec.getLsbD_not, hConst b hb, BitVec.getLsbD_ofNat,
    Nat.testBit_shiftLeft, Nat.testBit_two_pow_sub_one, Bool.eq_iff_iff]
  simp only [hb, decide_true, Bool.true_and, Bool.and_eq_true, Bool.not_eq_true',
    Bool.and_eq_false_iff, decide_eq_true_eq, decide_eq_false_iff_not]
  omega

/-- An entry is hit by the pool indices of its queue pair. -/
theorem senderEntry_hits (e index : ℕ) (qpn : BitVec 24) (p : PoolIndex) :
    (SenderEntry.mk (index <<< (e + 1)) (senderMask (2 ^ e)) qpn).hits p = true ↔
      p.toNat / 2 ^ (e + 1) = index := by
  have hHigh : (p &&& senderMask (2 ^ e)).toNat = p.toNat / 2 ^ (e + 1) * 2 ^ (e + 1) := by
    apply Nat.eq_of_testBit_eq
    intro b
    have hBit : p.toNat.testBit b = p.getLsbD b := rfl
    rw [← BitVec.getLsbD, BitVec.getLsbD_and, ← Nat.shiftLeft_eq, Nat.testBit_shiftLeft,
      Nat.testBit_div_two_pow]
    by_cases hb : b < 15
    · rw [senderMask_getLsbD e b hb]
      by_cases hLe : e + 1 ≤ b
      · simp [hLe, Nat.sub_add_cancel hLe, hBit]
      · simp [hLe]
    · have hZero : p.getLsbD b = false := BitVec.getLsbD_of_ge p b (by omega)
      by_cases hLe : e + 1 ≤ b
      · simp [hLe, Nat.sub_add_cancel hLe, hBit, hZero]
      · simp [hLe, hZero]
  unfold SenderEntry.hits
  dsimp only
  rw [decide_eq_true_eq, hHigh, Nat.shiftLeft_eq, Nat.mul_left_inj (Nat.two_pow_pos _).ne']

/-- **No overlap.** Of the entries from `index` on, only the one of the queue pair of `p`
is hit. -/
theorem installEntries_filter (e : ℕ) (p : PoolIndex) (index : ℕ) (qpns : List (BitVec 24)) :
    ((installEntries (e + 1) (senderMask (2 ^ e)) index qpns).filter (SenderEntry.hits · p)).map
      SenderEntry.qpn =
      if index ≤ p.toNat / 2 ^ (e + 1) then (qpns[p.toNat / 2 ^ (e + 1) - index]?).toList
      else [] := by
  have hHits := fun index qpn => senderEntry_hits e index qpn p
  generalize p.toNat / 2 ^ (e + 1) = q at hHits
  induction qpns generalizing index with
  | nil => simp [installEntries]
  | cons qpn qpns ih =>
    unfold installEntries
    dsimp only
    rw [List.filter_cons]
    by_cases hq : q = index
    · rw [if_pos ((hHits index qpn).mpr hq), List.map_cons, ih, if_neg (by omega),
        if_pos (by omega), hq]
      simp
    · rw [if_neg (fun h => hq ((hHits index qpn).mp h)), ih]
      by_cases hLt : index < q
      · rw [if_pos (by omega), if_pos (by omega), show q - index = q - (index + 1) + 1 by omega,
          List.getElem?_cons_succ]
      · rw [if_neg (by omega), if_neg (by omega)]

/-- The mask of the client keeps the set and what is the same for all packets of a
message. -/
theorem poolIndexMessageMask_getLsbD {flags : Client.Flags} {e : ℕ}
    (hP : flags.messageSize / flags.packetSize = 2 ^ e) : ∀ b < 32,
    (Client.poolIndexMessageMask flags).getLsbD b = decide (b = 0 ∨ e + 1 ≤ b) := by
  intro b hb
  have hSub : BitVec.ofNat 32 (2 ^ e) - 1 = BitVec.ofNat 32 (2 ^ e - 1) :=
    BitVec.ofNat_sub_ofNat_of_le _ _ (by decide) Nat.one_le_two_pow
  unfold Client.poolIndexMessageMask
  rw [hP, hSub, BitVec.getLsbD_or, BitVec.getLsbD_shiftLeft, BitVec.getLsbD_not,
    BitVec.getLsbD_ofNat, Nat.testBit_two_pow_sub_one, show (1 : BitVec 32) = 1#32 from rfl,
    BitVec.getLsbD_one, Bool.eq_iff_iff]
  have h32 : b - 1 < 32 := by omega
  simp only [hb, h32, decide_true, Bool.true_and, Bool.or_eq_true, Bool.and_eq_true,
    Bool.not_eq_true', decide_eq_false_iff_not, decide_eq_true_eq]
  omega

/-- The pool index that the client finds in a reply. -/
theorem poolIndex_setImmediate (p : PoolIndex) (exponents : ExponentsMd) :
    (setImmediate p exponents >>> 16) &&& 0x7fff = p.setWidth 32 := by
  unfold setImmediate
  have hMask : ∀ b < 32, (0x7fff#32).getLsbD b = decide (b < 15) := by decide
  apply BitVec.eq_of_getLsbD_eq
  intro b hb
  rw [show (0x7fff : BitVec 32) = 0x7fff#32 from rfl, BitVec.getLsbD_and, hMask b hb,
    BitVec.getLsbD_setWidth, BitVec.getLsbD_ushiftRight]
  simp only [BitVec.getLsbD_append, hb, decide_true, Bool.true_and]
  by_cases hLt : b < 15
  · have h8 : ¬ 16 + b < 8 := by omega
    have h16 : ¬ 16 + b - 8 < 8 := by omega
    have hSub : 16 + b - 8 - 8 = b := by omega
    simp [h8, h16, hSub, hLt]
  · rw [BitVec.getLsbD_of_ge p b (by omega)]
    simp [hLt]

/-- What the client keeps of a pool index of queue pair `i`. -/
theorem poolIndexMessageMask_and {flags : Client.Flags} {e i j : ℕ} {set : Bool}
    (hP : flags.messageSize / flags.packetSize = 2 ^ e) (hj : j < 2 ^ e) :
    BitVec.ofNat 32 (2 ^ (e + 1) * i + (2 * j + set.toNat)) &&& Client.poolIndexMessageMask flags =
      Client.rkeyOfSet flags i set := by
  have hLow : 2 * j + set.toNat < 2 ^ (e + 1) := by
    have := Bool.toNat_lt set
    rw [pow_succ]
    omega
  have hSet : set.toNat < 2 ^ (e + 1) := by omega
  rw [rkeyOfSet_pow hP]
  apply BitVec.eq_of_getLsbD_eq
  intro b hb
  rw [BitVec.getLsbD_and, BitVec.getLsbD_ofNat, BitVec.getLsbD_ofNat,
    poolIndexMessageMask_getLsbD hP b hb, Nat.testBit_two_pow_mul_add _ hLow,
    Nat.testBit_two_pow_mul_add _ hSet]
  simp only [hb, decide_true, Bool.true_and]
  by_cases h0 : b = 0
  · subst h0
    cases set <;> simp [Nat.testBit_zero]
  · obtain ⟨b', rfl⟩ := Nat.exists_eq_succ_of_ne_zero h0
    by_cases hb' : b' + 1 < e + 1
    · have hNot : ¬ e + 1 ≤ b' + 1 := by omega
      cases set <;> simp [hb', hNot, Nat.testBit_succ]
    · have hGe : e + 1 ≤ b' + 1 := by omega
      simp [hb', hGe]

/-- **One layout.** For packet `j` of a message on queue pair `i` and set `set`: the receive
stage counts up to its pool index, of the entries installed for the worker only the one with
the queue pair is hit, and the client takes the reply for the one to that message, and not
for one to the message on the other set. The logarithm of the number of packets is to be the
right one. -/
theorem slot_map_agrees (platform : Platform) (flags : Client.Flags) (packetSize : PacketSize)
    {e i j : ℕ} (set : Bool) (hSize : flags.packetSize = packetSize.bytes)
    (hP : flags.messageSize / flags.packetSize = 2 ^ e)
    (hLog : platform.log2 (2 ^ e) = some e) (hj : j < 2 ^ e)
    (hFits : 2 * (i * 2 ^ e + j) + set.toNat < 2 ^ 15) (qpns : List (BitVec 24))
    (hi : i < qpns.length) (psn : BitVec 24) (data : ReceiverData) (exponents : ExponentsMd) :
    let p : PoolIndex := BitVec.ofNat 15 (2 * (i * 2 ^ e + j) + set.toNat)
    (receiveMessage psn (Client.rkeyOfSet flags i set) data j).2 = p.setWidth 32 ∧
    ((addWriteWorker platform packetSize.number flags.messageSize qpns).1.filter
      (SenderEntry.hits · p)).map SenderEntry.qpn = [qpns.get ⟨i, hi⟩] ∧
    ((setImmediate p exponents >>> 16) &&& 0x7fff) &&& Client.poolIndexMessageMask flags =
      Client.rkeyOfSet flags i set ∧
    ((setImmediate p exponents >>> 16) &&& 0x7fff) &&& Client.poolIndexMessageMask flags ≠
      Client.rkeyOfSet flags i (!set) := by
  intro p
  have hSplit : 2 * (i * 2 ^ e + j) + set.toNat = 2 ^ (e + 1) * i + (2 * j + set.toNat) := by
    rw [pow_succ]
    ring
  have hNat : p.toNat = 2 ^ (e + 1) * i + (2 * j + set.toNat) := by
    rw [BitVec.toNat_ofNat, Nat.mod_eq_of_lt hFits, hSplit]
  have hWide : p.setWidth 32 = BitVec.ofNat 32 (2 ^ (e + 1) * i + (2 * j + set.toNat)) := by
    apply BitVec.eq_of_toNat_eq
    rw [BitVec.toNat_setWidth, hNat, BitVec.toNat_ofNat]
  have hClient : p.setWidth 32 &&& Client.poolIndexMessageMask flags =
      Client.rkeyOfSet flags i set := by
    rw [hWide, poolIndexMessageMask_and hP hj]
  rw [poolIndex_setImmediate, hClient]
  refine ⟨?_, ?_, rfl, ?_⟩
  · have hKey : (Client.rkeyOfSet flags i set).toNat = 2 ^ (e + 1) * i + set.toNat := by
      rw [rkeyOfSet_pow hP, BitVec.toNat_ofNat, Nat.mod_eq_of_lt (by omega)]
    obtain ⟨-, -, hRead⟩ := receiveMessage_eq psn hKey data (j := j) (by omega)
    apply BitVec.eq_of_toNat_eq
    rw [hRead, BitVec.toNat_setWidth, hNat]
    omega
  · have hLow : 2 * j + set.toNat < 2 ^ (e + 1) := by
      have := Bool.toNat_lt set
      rw [pow_succ]
      omega
    have hQueue : p.toNat / 2 ^ (e + 1) = i := by
      rw [hNat, Nat.mul_add_div (Nat.two_pow_pos _), Nat.div_eq_of_lt hLow, Nat.add_zero]
    have hPackets : packetsPerMessage packetSize.number flags.messageSize = ((2 ^ e : ℕ) : ℤ) := by
      rw [packetsPerMessage_number, ← hSize, hP]
    have hPos : ¬ ((2 ^ e : ℕ) : ℤ) ≤ 0 := by
      have := Nat.two_pow_pos e
      omega
    unfold addWriteWorker
    dsimp only
    rw [hPackets, if_neg hPos, Int.toNat_natCast, hLog]
    dsimp only
    rw [installEntries_filter, hQueue, if_pos (Nat.zero_le i), Nat.sub_zero,
      List.getElem?_eq_getElem hi]
    rfl
  · rw [rkeyOfSet_pow hP, rkeyOfSet_pow hP]
    intro hEq
    have hToNat := congrArg BitVec.toNat hEq
    rw [BitVec.toNat_ofNat, BitVec.toNat_ofNat] at hToNat
    have hBool : (!set).toNat ≤ 1 := Bool.toNat_le _
    rw [Nat.mod_eq_of_lt (by omega), Nat.mod_eq_of_lt (by omega)] at hToNat
    cases set <;> simp at hToNat

theorem ofInt_fits {w n : ℕ} (_ : n < 2 ^ w) : BitVec.ofInt w n = BitVec.ofNat w n :=
  BitVec.ofInt_natCast w n

/-- A platform whose logarithm is exact, and that cuts off what does not fit. -/
def exactPlatform : Platform where
  log2 n := if 2 ^ Nat.log2 n = n then some (Nat.log2 n) else none
  store w n := BitVec.ofInt w n
  store_fits := ofInt_fits

/-- 1024-byte messages of 256-byte packets on three queue pairs: the last packet of the
message on the second one, in set 1. -/
theorem slot_map_agrees_three :
    let flags : Client.Flags := ⟨1, 3, 1024, 256⟩
    let p : PoolIndex := 15
    (receiveMessage 0xffffff (Client.rkeyOfSet flags 1 true) {} 3).2 = p.setWidth 32 ∧
    ((addWriteWorker exactPlatform 1 1024 [0x11, 0x22, 0x33]).1.filter
      (SenderEntry.hits · p)).map SenderEntry.qpn = [0x22] := by
  intro flags p
  have h := slot_map_agrees exactPlatform flags .mtu256 (e := 2) (i := 1) (j := 3) true rfl
    (by decide) (by decide) (by decide) (by decide) [0x11, 0x22, 0x33] (by decide) 0xffffff {} {}
  exact ⟨h.1, h.2.1⟩

end SwitchML
