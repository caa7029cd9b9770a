import Mathlib.Data.BitVec
import Mathlib.Data.Fin.Tuple.Basic

/-!
# Bit codecs

The format of a packet header: a fixed number of bits in network order, written by
`encode` and read from the front of a stream by `decode`, which fails on a stream that
is too short or whose bits stand for no value.

* `Codec` — a format with its laws: what was written is read back, and reading takes
  exactly the width of the format;
* `field`, `pad`, `seq`, `vector`, `iso`, `partialIso` — formats of records from
  formats of their fields;
* `Codec.Exact` — the only bits read as a value are those it is written as. Padding
  is the one format here that is not exact: it is written as zero and read as anything;
* `emit` — a header that may be absent;
* `conjugate_blocks` — two streams that differ by a block moved from the front to the
  end are equal only if they consist of copies of the block.
-/

namespace BitCodec

variable {α β : Type}

abbrev Bits := List Bool

/-- A format of fixed width for the values of `α`. -/
structure Codec (α : Type) where
  width : Nat
  encode : α → Bits
  decode : Bits → Option (α × Bits)
  length_encode (a : α) : (encode a).length = width
  decode_encode (a : α) (rest : Bits) : decode (encode a ++ rest) = some (a, rest)
  length_decode {bits rest : Bits} {a : α} :
    decode bits = some (a, rest) → bits.length = width + rest.length

namespace Codec

attribute [simp] length_encode decode_encode

@[simp] theorem decode_encode_nil (c : Codec α) (a : α) : c.decode (c.encode a) = some (a, []) := by
  simpa using c.decode_encode a []

/-- A value is read only from the bits it is written as. -/
def Exact (c : Codec α) : Prop :=
  ∀ (bits rest : Bits) (a : α), c.decode bits = some (a, rest) → bits = c.encode a ++ rest

/-- Peel the first value off a parse that succeeded. -/
theorem Exact.of_bind {c : Codec α} (hc : c.Exact) {f : α × Bits → Option β} {bits : Bits}
    {b : β} (h : (c.decode bits >>= f) = some b) :
    ∃ a rest, bits = c.encode a ++ rest ∧ f (a, rest) = some b := by
  rw [Option.bind_eq_bind, Option.bind_eq_some_iff] at h
  obtain ⟨⟨a, rest⟩, hRead, h⟩ := h
  exact ⟨a, rest, hc _ _ _ hRead, h⟩

theorem encode_injective (c : Codec α) : Function.Injective c.encode := by
  intro a b h
  have hRead := c.decode_encode_nil a
  rw [h, c.decode_encode_nil] at hRead
  simpa using hRead.symm

-- ---------------------------------------------------------------------------
-- Combinators
-- ---------------------------------------------------------------------------

/-- One value after the other. -/
def seq (c : Codec α) (d : Codec β) : Codec (α × β) where
  width := c.width + d.width
  encode p := c.encode p.1 ++ d.encode p.2
  decode bits := (c.decode bits).bind fun (a, bits) => (d.decode bits).map fun (b, rest) =>
    ((a, b), rest)
  length_encode p := by simp
  decode_encode p rest := by simp
  length_decode h := by
    simp only [Option.bind_eq_some_iff, Option.map_eq_some_iff, Prod.mk.injEq] at h
    obtain ⟨⟨a, bits'⟩, hFirst, ⟨b, rest'⟩, hSecond, -, rfl⟩ := h
    rw [c.length_decode hFirst, d.length_decode hSecond, Nat.add_assoc]

theorem Exact.seq {c : Codec α} {d : Codec β} (hc : c.Exact) (hd : d.Exact) :
    (c.seq d).Exact := by
  intro bits rest p h
  simp only [Codec.seq, Option.bind_eq_some_iff, Option.map_eq_some_iff, Prod.mk.injEq] at h
  obtain ⟨⟨a, bits'⟩, hFirst, ⟨b, rest'⟩, hSecond, rfl, rfl⟩ := h
  dsimp only at hSecond ⊢
  rw [hc _ _ _ hFirst, hd _ _ _ hSecond]
  simp [Codec.seq]

/-- Another type for the same bits, not all of which need stand for a value. -/
def partialIso (c : Codec α) (pack : α → Option β) (unpack : β → α)
    (hInv : ∀ b, pack (unpack b) = some b) : Codec β where
  width := c.width
  encode b := c.encode (unpack b)
  decode bits := (c.decode bits).bind fun (a, rest) => (pack a).map fun b => (b, rest)
  length_encode b := by simp
  decode_encode b rest := by simp [hInv]
  length_decode h := by
    simp only [Option.bind_eq_some_iff, Option.map_eq_some_iff, Prod.mk.injEq] at h
    obtain ⟨⟨a, rest'⟩, hRead, b, -, -, rfl⟩ := h
    exact c.length_decode hRead

/-- Another type for the same bits. -/
def iso (c : Codec α) (pack : α → β) (unpack : β → α) (hInv : ∀ b, pack (unpack b) = b) :
    Codec β :=
  c.partialIso (fun a => some (pack a)) unpack (fun b => congrArg some (hInv b))

theorem Exact.iso {c : Codec α} {pack : α → β} {unpack : β → α}
    {hInv : ∀ b, pack (unpack b) = b} (hc : c.Exact) (hUnpack : ∀ a, unpack (pack a) = a) :
    (c.iso pack unpack hInv).Exact := by
  intro bits rest b h
  simp only [Codec.iso, partialIso, Option.bind_eq_some_iff, Option.map_some,
    Option.some.injEq, Prod.mk.injEq] at h
  obtain ⟨⟨a, rest'⟩, hRead, rfl, rfl⟩ := h
  simpa [Codec.iso, partialIso, hUnpack] using hc _ _ _ hRead

-- ---------------------------------------------------------------------------
-- Fields
-- ---------------------------------------------------------------------------

def bit : Codec Bool where
  width := 1
  encode b := [b]
  decode
    | [] => none
    | b :: rest => some (b, rest)
  length_encode _ := rfl
  decode_encode _ _ := rfl
  length_decode {bits rest b} h := by
    cases bits with
    | nil => cases h
    | cons b rest =>
      obtain ⟨-, rfl⟩ := Prod.mk.inj (Option.some.inj h)
      exact Nat.add_comm _ _

theorem bit_exact : bit.Exact := by
  intro bits rest b h
  cases bits with
  | nil => cases h
  | cons b' rest' =>
    obtain ⟨rfl, rfl⟩ := Prod.mk.inj (Option.some.inj h)
    rfl

/-- A field of `w` bits, the highest first. -/
def field : (w : Nat) → Codec (BitVec w)
  | 0 =>
    { width := 0
      encode := fun _ => []
      decode := fun bits => some (0#0, bits)
      length_encode := fun _ => rfl
      decode_encode := fun a _ => by simp [BitVec.eq_nil a]
      length_decode := fun h => by simp_all }
  | w + 1 => (bit.seq (field w)).iso (fun p => BitVec.cons p.1 p.2)
      (fun v => (v.msb, v.setWidth w)) (fun v => BitVec.cons_msb_setWidth v)

theorem field_exact (w : Nat) : (field w).Exact := by
  induction w with
  | zero =>
    intro bits rest a h
    simp_all [field]
  | succ w ih =>
    exact (bit_exact.seq ih).iso fun p =>
      Prod.ext BitVec.msb_cons BitVec.setWidth_cons

@[simp] theorem width_field (w : Nat) : (field w).width = w := by
  induction w with
  | zero => rfl
  | succ w ih => simp [field, iso, partialIso, seq, bit, ih, Nat.add_comm]

theorem encode_field (w : Nat) (v : BitVec w) :
    (field w).encode v = (List.range w).map v.getMsbD := by
  induction w with
  | zero => rfl
  | succ w ih =>
    have hStep : (field (w + 1)).encode v = v.msb :: (field w).encode (v.setWidth w) := rfl
    rw [hStep, ih, List.range_succ_eq_map, List.map_cons, List.map_map]
    refine congrArg₂ _ rfl (List.map_congr_left fun i hi => ?_)
    have hShift : i + (w + 1) - w = i + 1 := by omega
    simp [BitVec.getMsbD_setWidth, hShift]

/-- Two fields in a row are one field. -/
theorem encode_field_append {a b : Nat} (x : BitVec a) (y : BitVec b) :
    (field (a + b)).encode (x ++ y) = (field a).encode x ++ (field b).encode y := by
  rw [encode_field, encode_field, encode_field, List.range_add, List.map_append, List.map_map]
  refine congrArg₂ _ (List.map_congr_left fun i hi => ?_) (List.map_congr_left fun i hi => ?_)
  · simp [BitVec.getMsbD_append, List.mem_range.mp hi]
  · simp [BitVec.getMsbD_append]

/-- Bits nobody reads. -/
def pad (w : Nat) : Codec Unit where
  width := w
  encode _ := List.replicate w false
  decode bits := if w ≤ bits.length then some ((), bits.drop w) else none
  length_encode _ := List.length_replicate
  decode_encode _ rest := by simp [List.drop_left']
  length_decode {bits rest a} h := by
    split at h
    · next hLe =>
      obtain ⟨-, rfl⟩ := Prod.mk.inj (Option.some.inj h)
      rw [List.length_drop]
      omega
    · simp at h

/-- `n` values of one format. -/
def vector (c : Codec α) : (n : Nat) → Codec (Fin n → α)
  | 0 =>
    { width := 0
      encode := fun _ => []
      decode := fun bits => some (Fin.elim0, bits)
      length_encode := fun _ => rfl
      decode_encode := fun f _ => by simp [Subsingleton.elim f Fin.elim0]
      length_decode := fun h => by simp_all }
  | n + 1 => (c.seq (vector c n)).iso (fun p => Fin.cons p.1 p.2) (fun f => (f 0, Fin.tail f))
      (fun f => Fin.cons_self_tail f)

theorem Exact.vector {c : Codec α} (hc : c.Exact) (n : Nat) : (c.vector n).Exact := by
  induction n with
  | zero =>
    intro bits rest a h
    simp_all [Codec.vector]
  | succ n ih =>
    exact (hc.seq ih).iso fun _ => Prod.ext rfl (funext fun _ => rfl)

@[simp] theorem width_vector (c : Codec α) (n : Nat) : (c.vector n).width = n * c.width := by
  induction n with
  | zero => simp [vector]
  | succ n ih => simp [vector, iso, partialIso, seq, ih, Nat.succ_mul, Nat.add_comm]

/-- Equal values are written as copies of one block. -/
theorem encode_vector_const (c : Codec α) (a : α) (n : Nat) :
    (c.vector n).encode (fun _ => a) = (List.replicate n (c.encode a)).flatten := by
  induction n with
  | zero => rfl
  | succ n ih =>
    rw [List.replicate_succ, List.flatten_cons, ← ih]
    rfl

end Codec

-- ---------------------------------------------------------------------------
-- Headers that may be absent
-- ---------------------------------------------------------------------------

/-- A header is written only if it is valid. -/
def emit (c : Codec α) : Option α → Bits
  | none => []
  | some a => c.encode a

@[simp] theorem emit_none (c : Codec α) : emit c none = [] := rfl

@[simp] theorem emit_some (c : Codec α) (a : α) : emit c (some a) = c.encode a := rfl

-- ---------------------------------------------------------------------------
-- Shifted streams
-- ---------------------------------------------------------------------------

/-- Copies of copies of a block. -/
theorem flatten_replicate_flatten (x : List β) (n k : Nat) :
    (List.replicate n (List.replicate k x).flatten).flatten =
      (List.replicate (n * k) x).flatten := by
  induction n with
  | zero => simp
  | succ n ih =>
    rw [List.replicate_succ, List.flatten_cons, ih, Nat.succ_mul, Nat.add_comm,
      List.replicate_add, List.flatten_append]

/-- A block may be moved past copies of itself. -/
theorem append_flatten_replicate (x : List β) (k : Nat) :
    x ++ (List.replicate k x).flatten = (List.replicate k x).flatten ++ x := by
  rw [← List.flatten_cons, ← List.replicate_succ, List.replicate_succ', List.flatten_concat]

/-- If moving a block from the front of a stream to its end, as another block of the
same length, changes nothing, the stream is made of copies of the block. -/
theorem conjugate_blocks {x y : List β} (hLen : x.length = y.length) {k : Nat} {p : List β}
    (hp : p.length = k * x.length) (h : x ++ p = p ++ y) :
    p = (List.replicate k x).flatten ∧ x = y := by
  induction k generalizing p with
  | zero =>
    obtain rfl : p = [] := List.eq_nil_of_length_eq_zero (by omega)
    simpa using h
  | succ k ih =>
    -- the stream starts with the block, and the rest of it has the same property
    rw [Nat.succ_mul] at hp
    obtain ⟨p', hp'⟩ : x <+: p :=
      List.prefix_of_prefix_length_le (h ▸ List.prefix_append x p) (List.prefix_append p y)
        (by omega)
    subst hp'
    rw [List.append_assoc, List.append_cancel_left_eq] at h
    obtain ⟨hRest, hEq⟩ := ih (by simp at hp; omega) h
    exact ⟨by rw [List.replicate_succ, List.flatten_cons, ← hRest], hEq⟩

end BitCodec
