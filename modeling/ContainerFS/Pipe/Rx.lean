import Mathlib

/-!
The receive side of the shared-memory pipe (`link/sharedmem/pipe`,
`pipe.go`, `rx.go`, `pipe_unsafe.go`). The buffer is shared with the sender;
every slot starts with a 64-bit header, the payload size with `slotFree` as
its top bit, and a slot that does not fit before the end of the buffer is
preceded by a wrapping slot that runs to it. Indices are `uint64`: a 32-bit
revolution counter above a 32-bit offset into the buffer.

`Pull` skips a wrapping slot by calling itself; it is modelled with fuel, `none`
meaning the fuel ran out. Headers are read and written little-endian, as on
the machines the code runs on; a slice of the buffer past its end is the
runtime's panic.
-/

namespace ContainerFS.SharedMem

/-- `jump`: one revolution, `math.MaxUint32 + 1`. -/
def jump : UInt64 := 2 ^ 32

def offsetMask : UInt64 := 2 ^ 32 - 1

def revolutionMask : UInt64 := ~~~offsetMask

def sizeOfSlotHeader : UInt64 := 8

def slotFree : UInt64 := (1 : UInt64) <<< 63

def slotSizeMask : UInt64 := 2 ^ 32 - 1

/-- `payloadToSlotSize`: the header and the payload, rounded up to 8 bytes. -/
def payloadToSlotSize (payloadSize : UInt64) : UInt64 :=
  let s := sizeOfSlotHeader + payloadSize
  (s + sizeOfSlotHeader - 1) &&& ~~~(sizeOfSlotHeader - 1)

def slotToPayloadSize (offset : UInt64) : UInt64 := offset - sizeOfSlotHeader

/-- `int64(x)`: the two's complement value of the bits. -/
def int64 (x : UInt64) : ℤ := if x.toNat < 2 ^ 63 then x.toNat else x.toNat - 2 ^ 64

/-- The word whose little-endian bytes are `bs`. -/
def decodeLE (bs : List UInt8) : UInt64 := bs.foldr (fun b acc => b.toUInt64 ||| acc <<< 8) 0

/-- The eight little-endian bytes of `v`. -/
def encodeLE (v : UInt64) : List UInt8 := (List.range 8).map fun i => (v >>> (8 * i).toUInt64).toUInt8

/-- Slicing past the end of the buffer: the runtime's panic. -/
inductive PipePanic where
  | sliceOutOfRange (lo n : ℕ)
  deriving DecidableEq, Repr

/-- `pipe`: the buffer shared with the other side. -/
structure Pipe where
  buffer : List UInt8
  deriving DecidableEq, Repr

namespace Pipe

/-- `init`: the buffer cut down to a multiple of 8 bytes. -/
def init (b : List UInt8) : Pipe := ⟨b.take (b.length / 8 * 8)⟩

/-- `buffer[lo:][:n]`. -/
def slice (p : Pipe) (lo n : ℕ) : Except PipePanic (List UInt8) :=
  if lo ≤ p.buffer.length ∧ n ≤ p.buffer.length - lo then .ok ((p.buffer.drop lo).take n)
  else .error (.sliceOutOfRange lo n)

/-- `data`: the payload of the slot at `idx`. -/
def data (p : Pipe) (idx size : UInt64) : Except PipePanic (List UInt8) :=
  p.slice ((idx &&& offsetMask).toNat + sizeOfSlotHeader.toNat) size.toNat

/-- `readAtomic`: the header of the slot at `idx`. -/
def readAtomic (p : Pipe) (idx : UInt64) : Except PipePanic UInt64 :=
  (p.slice (idx &&& offsetMask).toNat 8).map decodeLE

/-- The eight bytes at `off` set to `v`: a store to the shared buffer, by
either side. -/
def setWord (p : Pipe) (off : ℕ) (v : UInt64) : Pipe :=
  ⟨p.buffer.take off ++ encodeLE v ++ p.buffer.drop (off + 8)⟩

/-- `writeAtomic`: the header of the slot at `idx` set to `v`. -/
def writeAtomic (p : Pipe) (idx v : UInt64) : Except PipePanic Pipe :=
  (p.slice (idx &&& offsetMask).toNat 8).map fun _ => p.setWord (idx &&& offsetMask).toNat v

end Pipe

/-- `Rx`: the pipe, the first slot not yet released (`tail`) and the next
slot to pull (`head`). -/
structure Rx where
  p : Pipe
  tail : UInt64
  head : UInt64
  deriving DecidableEq, Repr

namespace Rx

/-- `Init`: both indices at offset 0 of the revolution `0xfffffffe`. -/
def init (b : List UInt8) : Rx := ⟨Pipe.init b, 0xfffffffe * jump, 0xfffffffe * jump⟩

/-- `Pull` with `fuel` calls: the next payload, or `none` for a nil slice, and
the receiver after it; a wrapping slot is skipped, released first when no slot
is pulled since the last `Flush`, and `Pull` called again. -/
def pull : ℕ → Rx → Option (Except PipePanic (Option (List UInt8) × Rx))
  | 0, _ => none
  | fuel + 1, r =>
    if r.head = r.tail + jump then some (.ok (none, r))
    else
      match r.p.readAtomic r.head with
      | .error e => some (.error e)
      | .ok header =>
        if header &&& slotFree ≠ 0 then some (.ok (none, r))
        else
          let payloadSize := header &&& slotSizeMask
          let newHead := r.head + payloadToSlotSize payloadSize
          let headWrap := (r.head &&& revolutionMask) ||| r.p.buffer.length.toUInt64
          if int64 (newHead - headWrap) ≥ 0 then
            -- a wrapping slot must end at the start of the next revolution
            if int64 (newHead - headWrap) > int64 jump || newHead &&& offsetMask ≠ 0 then
              some (.ok (none, r))
            else
              let flushed : Except PipePanic Rx :=
                if r.tail = r.head then
                  (r.p.writeAtomic r.head (slotFree ||| slotToPayloadSize (newHead - r.head))).map
                    fun p => { r with p := p, tail := newHead }
                else .ok r
              match flushed with
              | .error e => some (.error e)
              | .ok r => pull fuel { r with head := newHead }
          else
            match r.p.data r.head payloadSize with
            | .error e => some (.error e)
            | .ok b => some (.ok (some b, { r with head := newHead }))

/-- `Flush`: the slots pulled since the last flush released as one free
slot. -/
def flush (r : Rx) : Except PipePanic Rx :=
  if r.head = r.tail then .ok r
  else
    (r.p.writeAtomic r.tail (slotFree ||| slotToPayloadSize (r.head - r.tail))).map
      fun p => { r with p := p, tail := r.head }

end Rx

/-! ### Indices -/

/-- The offset of an index. -/
theorem and_offsetMask (x : UInt64) : x &&& offsetMask = x % jump := by
  rw [← UInt64.toNat_inj, UInt64.toNat_and, UInt64.toNat_mod]
  have hm : offsetMask.toNat = 2 ^ 32 - 1 := rfl
  have hj : jump.toNat = 2 ^ 32 := rfl
  rw [hm, hj, Nat.and_two_pow_sub_one_eq_mod]

/-- The revolution bits of a 64-bit number. -/
theorem and_high_bits {a : ℕ} (ha : a < 2 ^ 64) : a &&& (2 ^ 64 - 2 ^ 32) = 2 ^ 32 * (a / 2 ^ 32) := by
  apply Nat.eq_of_testBit_eq
  intro j
  have hM : 2 ^ 64 - 2 ^ 32 = 2 ^ 32 * (2 ^ 32 - 1) := by norm_num
  rw [Nat.testBit_and, hM, Nat.testBit_two_pow_mul, Nat.testBit_two_pow_mul, Nat.testBit_div_two_pow,
    Nat.testBit_two_pow_sub_one]
  by_cases hj : 32 ≤ j
  · by_cases hj' : j < 64
    · simp [hj, show j - 32 < 32 by omega, Nat.sub_add_cancel hj]
    · have : a.testBit j = false := Nat.testBit_lt_two_pow (lt_of_lt_of_le ha (Nat.pow_le_pow_right (by norm_num) (by omega)))
      simp [hj, this, show ¬ j - 32 < 32 by omega, Nat.sub_add_cancel hj]
  · simp [hj]

/-- `headWrap`: the index of the end of the buffer in the revolution of `x`. -/
theorem headWrap_eq (x : UInt64) (len : ℕ) (hlen : len < 2 ^ 32) :
    (x &&& revolutionMask) ||| len.toUInt64 = x - x % jump + len.toUInt64 := by
  rw [← UInt64.toNat_inj, UInt64.toNat_or, UInt64.toNat_and]
  have hr : revolutionMask.toNat = 2 ^ 64 - 2 ^ 32 := rfl
  rw [hr, and_high_bits x.toNat_lt, ← Nat.two_pow_add_eq_or_of_lt (by simp; omega)]
  have hj : jump.toNat = 2 ^ 32 := rfl
  have hx := x.toNat_lt
  have hl : len.toUInt64.toNat = len := by
    simp only [Nat.toUInt64, UInt64.toNat_ofNat']
    omega
  simp only [UInt64.toNat_add, UInt64.toNat_sub, UInt64.toNat_mod, hj, hl]
  omega

/-- A header read looks at the offset of the index only. -/
theorem readAtomic_mod (p : Pipe) (idx : UInt64) : p.readAtomic idx = p.readAtomic (idx % jump) := by
  have hj : jump = 4294967296 := rfl
  have hmod : idx % jump % jump = idx % jump := by
    simp only [hj, ← UInt64.toNat_inj, UInt64.toNat_mod, UInt64.toNat_ofNat, Nat.reducePow,
      Nat.reduceMod]
    omega
  rw [Pipe.readAtomic, Pipe.readAtomic, and_offsetMask, and_offsetMask, hmod]

/-- A header of payload size `2 ^ 32 - 8` at offset 0 is a wrapping slot
from offset 0 to the next revolution: while `tail` is not at offset 0, it is
never released, and `Pull` skips it revolution after revolution. -/
theorem pull_wrap_at_zero (r : Rx) (hlen : r.p.buffer.length < 2 ^ 32)
    (hheader : r.p.readAtomic 0 = .ok (2 ^ 32 - 8)) (htail : r.tail % jump ≠ 0) :
    ∀ fuel (head : UInt64), head % jump = 0 → ({ r with head := head }).pull fuel = none
  | 0, _, _ => rfl
  | fuel + 1, head, hhead => by
    have hj : jump = 4294967296 := rfl
    rw [hj] at htail hhead
    have hne : head ≠ r.tail + jump := by
      intro h
      rw [h, hj] at hhead
      apply htail
      simp only [← UInt64.toNat_inj, UInt64.toNat_mod, UInt64.toNat_add, UInt64.toNat_ofNat,
        Nat.reducePow, Nat.reduceMod] at hhead ⊢
      omega
    have hread : r.p.readAtomic head = .ok (2 ^ 32 - 8) := by
      rw [readAtomic_mod, hj, hhead, hheader]
    have hwrap : (head &&& revolutionMask) ||| r.p.buffer.length.toUInt64 =
        head + r.p.buffer.length.toUInt64 := by
      rw [headWrap_eq head _ hlen, hj, hhead, UInt64.sub_zero]
    have hL : r.p.buffer.length.toUInt64.toNat = r.p.buffer.length := by
      simp only [Nat.toUInt64, UInt64.toNat_ofNat']
      omega
    -- the header is not free and its slot ends one revolution on
    have hfree : ¬((2 ^ 32 - 8 : UInt64) &&& slotFree ≠ 0) := by decide
    have hslot : payloadToSlotSize ((2 ^ 32 - 8 : UInt64) &&& slotSizeMask) = 4294967296 := by decide
    have hdiff : head + 4294967296 - (head + r.p.buffer.length.toUInt64) =
        4294967296 - r.p.buffer.length.toUInt64 := by
      simp only [← UInt64.toNat_inj, UInt64.toNat_add, UInt64.toNat_sub, UInt64.toNat_ofNat,
        Nat.reducePow, Nat.reduceMod, hL]
      have := head.toNat_lt
      omega
    have hgap : int64 (4294967296 - r.p.buffer.length.toUInt64) = 4294967296 - r.p.buffer.length := by
      have h : (4294967296 - r.p.buffer.length.toUInt64).toNat = 4294967296 - r.p.buffer.length := by
        simp only [UInt64.toNat_sub, UInt64.toNat_ofNat, Nat.reducePow, Nat.reduceMod, hL]
        omega
      rw [int64, h, if_pos (by omega)]
      omega
    have hjump : int64 jump = 4294967296 := rfl
    have hnext : (head + 4294967296) % 4294967296 = 0 := by
      simp only [← UInt64.toNat_inj, UInt64.toNat_mod, UInt64.toNat_add, UInt64.toNat_ofNat,
        Nat.reducePow, Nat.reduceMod] at hhead ⊢
      omega
    have hoff : ¬((head + 4294967296) &&& offsetMask ≠ 0) := by
      rw [and_offsetMask, hj, hnext]
      simp
    have htne : ¬r.tail = head := fun h => htail (h ▸ hhead)
    have hcheck : (decide ((4294967296 : ℤ) - r.p.buffer.length > 4294967296) ||
        decide ((head + 4294967296) &&& offsetMask ≠ 0)) = false := by
      simp only [hoff, decide_false, Bool.or_false, decide_eq_false_iff_not]
      omega
    simp only [Rx.pull, hne, ↓reduceIte, hread, hfree, hslot, hwrap, hdiff, hgap, hjump, htne]
    rw [if_pos (by omega), hcheck, if_neg Bool.false_ne_true]
    -- the next call starts one revolution on, again at offset 0
    exact pull_wrap_at_zero r hlen hheader htail fuel _ hnext

/-- A receiver on a buffer of 64 zero bytes pulls the empty slot at 0,
releases it, and pulls the empty slot at 8; the peer then writes a header at
16 whose slot runs to the end of the revolution, and the header `2 ^ 32 - 8`
at 0. With `tail` at 8, no call of `Pull` returns. -/
theorem pull_never_returns :
    ∃ r1 r2 r3, (Rx.init (List.replicate 64 0)).pull 1 = some (.ok (some [], r1)) ∧
      r1.flush = .ok r2 ∧ r2.pull 1 = some (.ok (some [], r3)) ∧
      ∀ fuel, ({ r3 with p := (r3.p.setWord 16 (2 ^ 32 - 24)).setWord 0 (2 ^ 32 - 8) }).pull fuel = none := by
  refine ⟨_, _, _, rfl, rfl, rfl, ?_⟩
  intro fuel
  cases fuel with
  | zero => rfl
  | succ fuel =>
    -- the slot at 16 wraps to offset 0 of the next revolution, and from there
    -- the slot at 0 wraps again and again
    exact pull_wrap_at_zero ⟨_, _, 0⟩ (by decide) (by decide) (by decide) fuel (0xffffffff * jump)
      (by decide)
end ContainerFS.SharedMem
