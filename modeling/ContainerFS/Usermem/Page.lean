import Mathlib.Tactic.Ring
import ContainerFS.Segment.Set

/-!
Page arithmetic on addresses (`pkg/sentry/usermem`, `addr.go`), for the code whose address
ranges are the keys of a segment set. An address is a 64-bit `uintptr` kept as a natural
number below `2^64`, with the wrap of its additions written out; an `AddrRange` is a segment
`Range`. Pages are the x86 ones of 4 KiB, huge pages 2 MiB.

`RoundUp` and `AddLength` report whether they wrapped; below the last page they do not, and
`RoundUp` gives the least page boundary at or above the address (`roundUp_of_le`).
-/

namespace ContainerFS.Usermem

open Segment

def pageSize : ℕ := 4096

def hugePageSize : ℕ := 2 ^ 21

/-- `Addr.RoundDown`: the low twelve bits cleared. -/
def roundDown (v : ℕ) : ℕ := v / pageSize * pageSize

/-- `Addr.RoundUp`: the page boundary at or above `v`, and whether rounding did not wrap. -/
def roundUp (v : ℕ) : ℕ × Bool :=
  let addr := roundDown ((v + pageSize - 1) % 2 ^ 64)
  (addr, decide (v ≤ addr))

def pageOffset (v : ℕ) : ℕ := v % pageSize

def isPageAligned (v : ℕ) : Bool := pageOffset v = 0

/-- `Addr.AddLength`: the end of `length` bytes from `v`, and whether it did not wrap. -/
def addLength (v length : ℕ) : ℕ × Bool :=
  let stop := (v + length) % 2 ^ 64
  (stop, decide (v ≤ stop) && decide (length ≤ 2 ^ 64 - 1))

def toRange (v length : ℕ) : Range × Bool :=
  ((⟨v, (addLength v length).1⟩ : Range), (addLength v length).2)

def Range.isPageAligned (ar : Range) : Bool :=
  Usermem.isPageAligned ar.start && Usermem.isPageAligned ar.stop

/-- The least page boundary at or above `v`. -/
def pageCeil (v : ℕ) : ℕ := (v + pageSize - 1) / pageSize * pageSize

theorem roundDown_of_aligned {v : ℕ} (h : v % pageSize = 0) : roundDown v = v :=
  Nat.div_mul_cancel (Nat.dvd_of_mod_eq_zero h)

theorem le_pageCeil (v : ℕ) : v ≤ pageCeil v := by
  unfold pageCeil pageSize
  omega

/-- Below the last page, `RoundUp` does not wrap and gives the least boundary at or above. -/
theorem roundUp_of_le {v : ℕ} (h : v ≤ 2 ^ 64 - pageSize) : roundUp v = (pageCeil v, true) := by
  have hlt : v + pageSize - 1 < 2 ^ 64 := by unfold pageSize at *; omega
  simp only [roundUp, Nat.mod_eq_of_lt hlt, Prod.mk.injEq, decide_eq_true_eq]
  exact ⟨rfl, le_pageCeil v⟩

/-- `AddLength` that did not wrap is the sum. -/
theorem addLength_of_ok {v length : ℕ} (h : (addLength v length).2 = true) :
    (addLength v length).1 = v + length := by
  simp only [addLength, Bool.and_eq_true, decide_eq_true_eq] at *
  omega

/-- The end of a range from `ToRange` is an address. -/
theorem toRange_stop_lt (v length : ℕ) : (toRange v length).1.stop < 2 ^ 64 :=
  Nat.mod_lt _ (Nat.two_pow_pos 64)

/-- A nonempty range from `ToRange` did not wrap: it holds `length` bytes, taken modulo `2^64` as
the `uint64` it is. -/
theorem toRange_length_of_ne_zero {v length : ℕ} (h : (toRange v length).1.length ≠ 0) :
    (toRange v length).1.length = length % 2 ^ 64 := by
  simp only [toRange, addLength, Range.length] at *
  omega

end ContainerFS.Usermem
