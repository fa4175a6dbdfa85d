import Mathlib.Control.Traversable.Basic
import Mathlib.Data.List.Basic
import Mathlib.Data.UInt
import Mathlib.Tactic.Ring

/-!
Byte-level wire formats: little-endian integers, a reader over a byte buffer
that records a read past its end and goes on, and the rules by which a reader
takes back what a writer wrote. A reader is a state computation over the
buffer; every rule is stated for a buffer whose data starts with what was
written, followed by anything, so that the rules compose field by field.
-/

namespace ContainerFS.Wire

/-! ### Little-endian integers -/

/-- The `n` low bytes of `v`, least significant first. -/
def leBytes : ℕ → ℕ → List UInt8
  | 0, _ => []
  | n + 1, v => (v % 256).toUInt8 :: leBytes n (v / 256)

/-- The value of bytes read least significant first. -/
def leValue : List UInt8 → ℕ
  | [] => 0
  | b :: bs => b.toNat + 256 * leValue bs

@[simp]
theorem length_leBytes (n v : ℕ) : (leBytes n v).length = n := by
  induction n generalizing v with
  | zero => rfl
  | succ n ih => simp [leBytes, ih]

theorem leValue_leBytes (n v : ℕ) : leValue (leBytes n v) = v % 2 ^ (8 * n) := by
  induction n generalizing v with
  | zero => simp [leBytes, leValue, Nat.mod_one]
  | succ n ih =>
    have hbyte : ((v % 256).toUInt8).toNat = v % 256 := by
      simp only [Nat.toUInt8, UInt8.toNat_ofNat']
      omega
    have hpow : 2 ^ (8 * (n + 1)) = 256 * 2 ^ (8 * n) := by ring
    rw [leBytes, leValue, hbyte, ih, hpow, Nat.mod_mul]

def uint16 (bs : List UInt8) : UInt16 := (leValue bs).toUInt16

def uint32 (bs : List UInt8) : UInt32 := (leValue bs).toUInt32

def uint64 (bs : List UInt8) : UInt64 := (leValue bs).toUInt64

def putUint16 (v : UInt16) : List UInt8 := leBytes 2 v.toNat

def putUint32 (v : UInt32) : List UInt8 := leBytes 4 v.toNat

def putUint64 (v : UInt64) : List UInt8 := leBytes 8 v.toNat

@[simp] theorem length_putUint16 (v : UInt16) : (putUint16 v).length = 2 := length_leBytes _ _
@[simp] theorem length_putUint32 (v : UInt32) : (putUint32 v).length = 4 := length_leBytes _ _
@[simp] theorem length_putUint64 (v : UInt64) : (putUint64 v).length = 8 := length_leBytes _ _

@[simp]
theorem uint16_putUint16 (v : UInt16) : uint16 (putUint16 v) = v := by
  simp [uint16, putUint16, leValue_leBytes, Nat.toUInt16, Nat.mod_eq_of_lt v.toNat_lt]

@[simp]
theorem uint32_putUint32 (v : UInt32) : uint32 (putUint32 v) = v := by
  simp [uint32, putUint32, leValue_leBytes, Nat.toUInt32, Nat.mod_eq_of_lt v.toNat_lt]

@[simp]
theorem uint64_putUint64 (v : UInt64) : uint64 (putUint64 v) = v := by
  simp [uint64, putUint64, leValue_leBytes, Nat.toUInt64, Nat.mod_eq_of_lt v.toNat_lt]

/-! ### Big-endian integers -/

/-- `binary.BigEndian.Uint32`: the first four bytes, most significant first. -/
def uint32BE (bs : List UInt8) : UInt32 := uint32 (bs.take 4).reverse

def putUint32BE (v : UInt32) : List UInt8 := (putUint32 v).reverse

@[simp] theorem length_putUint32BE (v : UInt32) : (putUint32BE v).length = 4 := by
  simp [putUint32BE]

@[simp]
theorem uint32BE_putUint32BE_append (v : UInt32) (rest : List UInt8) :
    uint32BE (putUint32BE v ++ rest) = v := by
  have htake : (putUint32BE v ++ rest).take 4 = putUint32BE v :=
    List.take_left' (length_putUint32BE v)
  rw [uint32BE, htake, putUint32BE, List.reverse_reverse, uint32_putUint32]

/-! ### Reading a buffer -/

/-- A buffer being read: the bytes not read yet, and whether a read has run
past its end. -/
structure Buffer where
  data : List UInt8
  overflow : Bool
  deriving DecidableEq, Repr

/-- A computation that reads a buffer. -/
abbrev Reader := StateM Buffer

variable {α β : Type}

/-- `n` bytes from the front, or none and the buffer marked overrun. -/
def consume (n : ℕ) : Reader (Option (List UInt8)) := fun b =>
  if n ≤ b.data.length then (some (b.data.take n), { b with data := b.data.drop n })
  else (none, { b with overflow := true })

/-- Whether `n` bytes are left. -/
def has (n : ℕ) : Reader Bool := fun b => (decide (n ≤ b.data.length), b)

/-- The buffer marked overrun. -/
def markOverrun : Reader Unit := fun b => ((), { b with overflow := true })

/-- `r` run `n` times, its results in order. -/
def readMany : ℕ → Reader α → Reader (List α)
  | 0, _ => pure []
  | n + 1, r => do
    let x ← r
    let xs ← readMany n r
    pure (x :: xs)

/-- `Id`'s `pure` is the value itself. -/
@[simp]
theorem id_pure (a : α) : (pure a : Id α) = a := rfl

/-- A reader that returns `a` and leaves `b'` from `b` lets a computation
after it go on from `b'` with `a`. -/
theorem run_bind_of_run {x : Reader α} {b b' : Buffer} {a : α} (h : x.run b = (a, b'))
    (k : α → Reader β) : (x >>= k).run b = (k a).run b' := by
  rw [StateT.run_bind, h]
  rfl

theorem consume_append (bs rest : List UInt8) (o : Bool) :
    (consume bs.length).run ⟨bs ++ rest, o⟩ = (some bs, ⟨rest, o⟩) := by
  simp [consume, StateT.run]

theorem has_append {n : ℕ} {bs : List UInt8} (h : n ≤ bs.length) (o : Bool) :
    (has n).run ⟨bs, o⟩ = (true, ⟨bs, o⟩) := by
  simp [has, StateT.run, h]

/-- The rule for repeated fields: a reader that takes back each element's
encoding, run as many times as there are elements, takes back the list. -/
theorem readMany_flatMap (w : α → List UInt8) (r : Reader β) (f : α → β) (P : α → Prop)
    (hr : ∀ a, P a → ∀ rest o, r.run ⟨w a ++ rest, o⟩ = (f a, ⟨rest, o⟩))
    (xs : List α) (hxs : ∀ a ∈ xs, P a) (rest : List UInt8) (o : Bool) :
    (readMany xs.length r).run ⟨xs.flatMap w ++ rest, o⟩ = (xs.map f, ⟨rest, o⟩) := by
  induction xs with
  | nil => rfl
  | cons a xs ih =>
    have ha : P a := hxs a List.mem_cons_self
    have hrest : ∀ a ∈ xs, P a := fun a h => hxs a (List.mem_cons_of_mem _ h)
    rw [List.length_cons, readMany, List.flatMap_cons, List.append_assoc,
      run_bind_of_run (hr a ha _ o), run_bind_of_run (ih hrest)]
    rfl

theorem run_bind (x : Reader α) (k : α → Reader β) (b : Buffer) :
    (x >>= k).run b = (k (x.run b).1).run (x.run b).2 :=
  run_bind_of_run rfl k

/-- `run'` keeps the value. -/
theorem run'_eq (x : Reader α) (b : Buffer) : x.run' b = (x.run b).1 := rfl

/-! ### The overrun mark

Once a read has run past the end, the buffer stays marked. A reader of a
fixed length `n` takes exactly `n` bytes when they are there and marks the
buffer when they are not; such readers compose, their lengths adding up. -/

/-- `r` never clears the overrun mark. -/
def Sticky (r : Reader α) : Prop :=
  ∀ b : Buffer, b.overflow = true → (r.run b).2.overflow = true

/-- `r` reads exactly `n` bytes. -/
structure ReadsFixed (r : Reader α) (n : ℕ) : Prop where
  sticky : Sticky r
  fits : ∀ bs o, n ≤ bs.length → (r.run ⟨bs, o⟩).2 = ⟨bs.drop n, o⟩
  short : ∀ bs o, bs.length < n → (r.run ⟨bs, o⟩).2.overflow = true

theorem sticky_pure (a : α) : Sticky (pure a : Reader α) := fun _ h => h

theorem Sticky.bind {x : Reader α} {k : α → Reader β} (hx : Sticky x) (hk : ∀ a, Sticky (k a)) :
    Sticky (x >>= k) := by
  intro b hb
  rw [run_bind]
  exact hk _ _ (hx b hb)

theorem sticky_consume (n : ℕ) : Sticky (consume n) := by
  intro b hb
  simp only [consume, StateT.run]
  split
  · exact hb
  · rfl

theorem sticky_has (n : ℕ) : Sticky (has n) := fun _ hb => hb

theorem sticky_markOverrun : Sticky markOverrun := fun _ _ => rfl

theorem Sticky.readMany {r : Reader α} (hr : Sticky r) (n : ℕ) : Sticky (readMany n r) := by
  induction n with
  | zero => exact sticky_pure _
  | succ n ih => exact hr.bind fun _ => ih.bind fun _ => sticky_pure _

theorem readsFixed_pure (a : α) : ReadsFixed (pure a : Reader α) 0 :=
  ⟨sticky_pure a, fun _ _ _ => rfl, fun _ _ h => absurd h (Nat.not_lt_zero _)⟩

theorem readsFixed_consume (n : ℕ) : ReadsFixed (consume n) n where
  sticky := sticky_consume n
  fits bs o h := by simp [consume, StateT.run, h]
  short bs o h := by simp [consume, StateT.run, Nat.not_le.mpr h]

theorem ReadsFixed.bind {x : Reader α} {k : α → Reader β} {n m : ℕ} (hx : ReadsFixed x n)
    (hk : ∀ a, ReadsFixed (k a) m) : ReadsFixed (x >>= k) (n + m) where
  sticky := hx.sticky.bind fun a => (hk a).sticky
  fits bs o h := by
    rw [run_bind, hx.fits bs o (by omega), (hk _).fits _ o (by simp; omega), List.drop_drop]
  short bs o h := by
    rw [run_bind]
    by_cases hn : n ≤ bs.length
    · rw [hx.fits bs o hn]
      exact (hk _).short _ o (by simp; omega)
    · exact (hk _).sticky _ (hx.short bs o (by omega))

/-- A fixed-length reader short of bytes leaves the buffer marked, whatever
follows it, if what follows keeps the mark. -/
theorem ReadsFixed.short_bind {x : Reader α} {n : ℕ} (hx : ReadsFixed x n) {k : α → Reader β}
    (hk : ∀ a, Sticky (k a)) {bs : List UInt8} (h : bs.length < n) (o : Bool) :
    ((x >>= k).run ⟨bs, o⟩).2.overflow = true := by
  rw [run_bind]
  exact hk _ _ (hx.short bs o h)

/-- With its bytes there, a fixed-length reader hands what follows the rest. -/
theorem ReadsFixed.fits_bind {x : Reader α} {n : ℕ} (hx : ReadsFixed x n) (k : α → Reader β)
    {bs : List UInt8} (h : n ≤ bs.length) (o : Bool) :
    (x >>= k).run ⟨bs, o⟩ = (k (x.run ⟨bs, o⟩).1).run ⟨bs.drop n, o⟩ := by
  rw [run_bind, hx.fits bs o h]

/-! ### Flag words

A word of flags is built by setting one bit per flag that holds, and read
back by testing each bit. -/

/-- `if b { m |= k }`. -/
def UInt64.orIf (b : Bool) (k m : UInt64) : UInt64 := if b then m ||| k else m

/-- `if b { m |= k }`. -/
def UInt32.orIf (b : Bool) (k m : UInt32) : UInt32 := if b then m ||| k else m

theorem UInt64.orIf_and_of_disjoint (b : Bool) (m k k' : UInt64) (h : k &&& k' = 0) :
    UInt64.orIf b k m &&& k' = m &&& k' := by
  cases b
  · rfl
  · apply UInt64.toBitVec_inj.mp
    have hk : k.toBitVec &&& k'.toBitVec = 0 := by simpa using congrArg UInt64.toBitVec h
    simp [UInt64.orIf, BitVec.and_or_distrib_right, hk]

theorem UInt64.orIf_and_self (b : Bool) (m k : UInt64) :
    UInt64.orIf b k m &&& k = if b then k else m &&& k := by
  cases b
  · rfl
  · show (m ||| k) &&& k = k
    apply UInt64.toBitVec_inj.mp
    ext i
    simp only [UInt64.toBitVec_and, UInt64.toBitVec_or, BitVec.getElem_and, BitVec.getElem_or]
    cases m.toBitVec[i] <;> cases k.toBitVec[i] <;> rfl

theorem UInt32.orIf_and_of_disjoint (b : Bool) (m k k' : UInt32) (h : k &&& k' = 0) :
    UInt32.orIf b k m &&& k' = m &&& k' := by
  cases b
  · rfl
  · apply UInt32.toBitVec_inj.mp
    have hk : k.toBitVec &&& k'.toBitVec = 0 := by simpa using congrArg UInt32.toBitVec h
    simp [UInt32.orIf, BitVec.and_or_distrib_right, hk]

theorem UInt32.orIf_and_self (b : Bool) (m k : UInt32) :
    UInt32.orIf b k m &&& k = if b then k else m &&& k := by
  cases b
  · rfl
  · show (m ||| k) &&& k = k
    apply UInt32.toBitVec_inj.mp
    ext i
    simp only [UInt32.toBitVec_and, UInt32.toBitVec_or, BitVec.getElem_and, BitVec.getElem_or]
    cases m.toBitVec[i] <;> cases k.toBitVec[i] <;> rfl

theorem UInt64.flag_ne_zero (b : Bool) {k : UInt64} (hk : k ≠ 0) :
    ((if b then k else 0) != 0) = b := by
  cases b <;> simp [hk]

theorem UInt32.flag_ne_zero (b : Bool) {k : UInt32} (hk : k ≠ 0) :
    ((if b then k else 0) != 0) = b := by
  cases b <;> simp [hk]

end ContainerFS.Wire
