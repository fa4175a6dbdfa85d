import ContainerFS.Lib.OnesComplement
import ContainerFS.Net.Buffer
import Mathlib.Data.List.GetD

/-!
The Internet checksum of `pkg/tcpip/header/checksum.go`. `calculateChecksum`
adds the big-endian 16-bit words of a buffer into a `uint32`, an odd trailing
byte first as a high byte, and folds the sum once with `ChecksumCombine`.
`ChecksumVV` runs it view by view: a view that ends in the middle of a word
leaves `odd` set, and the next non-empty view adds its first byte as the low
byte of that word before the rest is summed.

The specification is RFC 1071's (`onesSum`): the words of the whole buffer, a
trailing odd byte padded with zero, summed from the initial value and folded
with end-around carries. Below `2^17` bytes the `uint32` never wraps, so one
`ChecksumCombine` finishes the fold (`calculateChecksum_toNat`), and the
view-by-view checksum is the checksum of the concatenated views
(`checksumViews_toNat`).
-/

namespace ContainerFS.Checksum

open OnesComplement Buffer

/-- `ChecksumCombine`: the two halves added, and the carry out of their sum
added back. -/
def checksumCombine (a b : UInt16) : UInt16 :=
  let v := a.toUInt32 + b.toUInt32
  (v + (v >>> 16)).toUInt16

/-- The loop of `calculateChecksum` over the pairs `buf[i], buf[i+1]`. -/
def sumPairs (v : UInt32) : List UInt8 → UInt32
  | b0 :: b1 :: rest => sumPairs (v + ((b0.toUInt32 <<< 8) + b1.toUInt32)) rest
  | _ => v

def calculateChecksum (buf : List UInt8) (initial : UInt32) : UInt16 :=
  let l := buf.length
  let odd := l &&& 1 != 0
  let v := if odd then initial + ((buf.getD (l - 1) 0).toUInt32 <<< 8) else initial
  let l := if odd then l - 1 else l
  let v := sumPairs v (buf.take l)
  checksumCombine v.toUInt16 (v >>> 16).toUInt16

def checksum (buf : List UInt8) (initial : UInt16) : UInt16 :=
  calculateChecksum buf initial.toUInt32

/-- The loop of `ChecksumVV` over the views, carrying `odd` and `sum`. -/
def checksumViews : Bool → UInt16 → List (View UInt8) → UInt16
  | _, sum, [] => sum
  | odd, sum, v :: vs =>
    if v.length = 0 then checksumViews odd sum vs
    else
      -- the byte left over from the views before ends its word here
      let s := if odd then sum.toUInt32 + (v.headD 0).toUInt32 else sum.toUInt32
      let v := if odd then v.drop 1 else v
      checksumViews (v.length &&& 1 != 0) (calculateChecksum v s) vs

def checksumVV (vv : VectorisedView UInt8) (initial : UInt16) : UInt16 :=
  checksumViews false initial vv.views

/-! ### RFC 1071 -/

/-- The big-endian 16-bit words of a buffer, a trailing odd byte padded with
zero. -/
def words : List UInt8 → List ℕ
  | b0 :: b1 :: rest => (256 * b0.toNat + b1.toNat) :: words rest
  | [b0] => [256 * b0.toNat]
  | [] => []

/-- The checksum RFC 1071 defines: the words summed from `initial`, and the sum
folded into 16 bits with end-around carries. -/
def onesSum (initial : ℕ) (buf : List UInt8) : ℕ :=
  foldCarries 65536 (initial + (words buf).sum)

/-- Appending to a buffer of odd length completes its last word with the first
byte appended. -/
theorem sum_words_append (p q : List UInt8) :
    (words (p ++ q)).sum = (words p).sum +
      if p.length % 2 = 1 then (q.headD 0).toNat + (words (q.drop 1)).sum
      else (words q).sum := by
  induction p using words.induct with
  | case1 b0 b1 rest ih =>
    simp only [List.cons_append, words, List.sum_cons, List.length_cons, ih]
    -- two bytes more keep the parity
    split_ifs <;> omega
  | case2 b0 =>
    cases q with
    | nil => simp [words]
    | cons c q => simp [words, Nat.add_assoc]
  | case3 => simp [words]

/-- A word is at most `65535`, a padded trailing byte at most `65280`. -/
theorem sum_words_le (buf : List UInt8) :
    (words buf).sum ≤ 65535 * (buf.length / 2) + 65280 * (buf.length % 2) := by
  induction buf using words.induct with
  | case1 b0 b1 rest ih =>
    have h0 := b0.toNat_lt
    have h1 := b1.toNat_lt
    simp only [words, List.sum_cons, List.length_cons]
    omega
  | case2 b0 =>
    have h0 := b0.toNat_lt
    simp only [words, List.sum_cons, List.sum_nil, List.length_cons, List.length_nil]
    omega
  | case3 => simp [words]

/-! ### The `uint32` accumulator -/

theorem pairWord_toNat (b0 b1 : UInt8) :
    ((b0.toUInt32 <<< 8) + b1.toUInt32).toNat = 256 * b0.toNat + b1.toNat := by
  have h0 := b0.toNat_lt
  have h1 := b1.toNat_lt
  simp only [UInt32.toNat_add, UInt32.toNat_shiftLeft, UInt8.toNat_toUInt32, Nat.shiftLeft_eq]
  simp only [UInt32.reduceToNat, Nat.reduceMod, Nat.reducePow]
  omega

/-- The pair loop adds the words of an even buffer, as long as the sum fits
32 bits. -/
theorem sumPairs_toNat (v : UInt32) (buf : List UInt8) (heven : buf.length % 2 = 0)
    (hfits : v.toNat + (words buf).sum < 2 ^ 32) :
    (sumPairs v buf).toNat = v.toNat + (words buf).sum := by
  induction buf using words.induct generalizing v with
  | case1 b0 b1 rest ih =>
    simp only [words, List.sum_cons, List.length_cons] at heven hfits ⊢
    have hstep : (v + ((b0.toUInt32 <<< 8) + b1.toUInt32)).toNat =
        v.toNat + (256 * b0.toNat + b1.toNat) := by
      have hfit : v.toNat + (256 * b0.toNat + b1.toNat) < 2 ^ 32 := by omega
      rw [UInt32.toNat_add, pairWord_toNat, Nat.mod_eq_of_lt hfit]
    rw [sumPairs, ih _ (by omega) (by omega), hstep]
    omega
  | case2 b0 => simp at heven
  | case3 => simp [sumPairs, words]

/-- One `ChecksumCombine` of the halves of a `uint32` folds it completely. -/
theorem checksumCombine_toNat (v : UInt32) :
    (checksumCombine v.toUInt16 (v >>> 16).toUInt16).toNat = reduce 65536 v.toNat := by
  have hv := v.toNat_lt
  have hhigh : v.toNat / 65536 < 65536 := by omega
  rw [← carry_add_div_mod (b := 65536) (by omega) (show v.toNat < 65536 * 65536 by omega)]
  simp only [checksumCombine, carry, UInt32.toNat_toUInt16, UInt32.toNat_add, UInt16.toNat_toUInt32,
    UInt32.toNat_shiftRight, Nat.shiftRight_eq_div_pow, UInt32.reduceToNat, Nat.reduceMod,
    Nat.reducePow]
  -- the halves and the carry out of their sum fit 32 bits
  have hsum : v.toNat % 65536 + v.toNat / 65536 < 4294967296 := by omega
  rw [Nat.mod_eq_of_lt hhigh, Nat.mod_eq_of_lt hsum,
    Nat.mod_mod_of_dvd _ (show 65536 ∣ 4294967296 from ⟨65536, rfl⟩)]

/-- `calculateChecksum` is RFC 1071's sum, for a buffer below `2^17` bytes and
an initial value up to `65535 + 255` (what `ChecksumVV` can pass). -/
theorem calculateChecksum_toNat (buf : List UInt8) (initial : UInt32)
    (hinit : initial.toNat ≤ 65790) (hlen : buf.length < 2 ^ 17) :
    (calculateChecksum buf initial).toNat = reduce 65536 (initial.toNat + (words buf).sum) := by
  have hbound := sum_words_le buf
  have hsum_fits : initial.toNat + (words buf).sum < 2 ^ 32 := by omega
  simp only [calculateChecksum, Nat.and_one_is_mod, bne_iff_ne, ne_eq]
  split_ifs with heven
  · rw [List.take_length, checksumCombine_toNat, sumPairs_toNat _ _ heven hsum_fits]
  · -- the trailing byte is added first, then the even prefix
    set last := buf.getD (buf.length - 1) 0 with hlast
    have hsplit : buf = buf.take (buf.length - 1) ++ [last] := by
      rw [hlast, List.getD_eq_getElem?_getD, List.getElem?_eq_getElem (show buf.length - 1 < buf.length by omega), Option.getD_some]
      have hlast_elem := List.take_append_getElem (show buf.length - 1 < buf.length by omega)
      rw [Nat.sub_add_cancel (by omega), List.take_length] at hlast_elem
      exact hlast_elem.symm
    have hprefix : (buf.take (buf.length - 1)).length % 2 = 0 := by
      rw [List.length_take]
      omega
    have hwords : (words buf).sum =
        (words (buf.take (buf.length - 1))).sum + 256 * last.toNat := by
      conv_lhs => rw [hsplit]
      rw [sum_words_append, if_neg (by omega)]
      simp [words]
    have hlast_lt := last.toNat_lt
    have hfirst : (initial + (last.toUInt32 <<< 8)).toNat = initial.toNat + 256 * last.toNat := by
      simp only [UInt32.toNat_add, UInt32.toNat_shiftLeft, UInt8.toNat_toUInt32, Nat.shiftLeft_eq,
        UInt32.reduceToNat, Nat.reduceMod, Nat.reducePow]
      omega
    rw [checksumCombine_toNat, sumPairs_toNat _ _ hprefix (by omega), hfirst, hwords]
    congr 1
    omega

theorem checksum_toNat (buf : List UInt8) (initial : UInt16) (hlen : buf.length < 2 ^ 17) :
    (checksum buf initial).toNat = onesSum initial.toNat buf := by
  have hinit := initial.toNat_lt
  rw [checksum, calculateChecksum_toNat _ _ (by simp; omega) hlen, onesSum,
    foldCarries_eq_reduce (by omega), UInt16.toNat_toUInt32]

/-! ### `ChecksumVV` -/

/-- After a non-empty view, the `odd` that `ChecksumVV` passes on is the parity
of the bytes read so far. -/
theorem odd_after_view (pre v : List UInt8) (odd : Bool)
    (hodd : odd = decide (pre.length % 2 = 1)) (hv : ¬v.length = 0) :
    ((if odd then v.drop 1 else v).length &&& 1 != 0) = decide ((pre ++ v).length % 2 = 1) := by
  rw [Bool.eq_iff_iff, bne_iff_ne, decide_eq_true_eq, Nat.and_one_is_mod, List.length_append]
  cases odd
  · have hnot : ¬pre.length % 2 = 1 := by simpa using hodd
    simp only [Bool.false_eq_true, if_false]
    omega
  · have hpar : pre.length % 2 = 1 := by simpa using hodd
    simp only [if_true, List.length_drop]
    omega

/-- The loop of `ChecksumVV` keeps, after the views `pre` it has read, `odd`
as the parity of their length and `sum` as the folded sum of their words; so
it ends with the sum of all the views' words. -/
theorem checksumViews_toNat (initial : ℕ) (vs : List (View UInt8)) (pre : List UInt8)
    (odd : Bool) (sum : UInt16) (hodd : odd = decide (pre.length % 2 = 1))
    (hsum : sum.toNat = reduce 65536 (initial + (words pre).sum))
    (hlen : pre.length + vs.flatten.length < 2 ^ 17) :
    (checksumViews odd sum vs).toNat = reduce 65536 (initial + (words (pre ++ vs.flatten)).sum) := by
  induction vs generalizing pre odd sum with
  | nil => simpa [checksumViews] using hsum
  | cons v vs ih =>
    simp only [List.flatten_cons, List.length_append] at hlen
    by_cases hv : v.length = 0
    · -- an empty view is skipped
      rw [checksumViews, if_pos hv, List.flatten_cons, List.length_eq_zero_iff.mp hv,
        List.nil_append]
      exact ih pre odd sum hodd hsum (by omega)
    · rw [checksumViews, if_neg hv, List.flatten_cons, ← List.append_assoc]
      have hsum_lt := sum.toNat_lt
      have hhead_lt := (v.headD 0).toNat_lt
      apply ih (pre ++ v) _ _ _ _ (by simp only [List.length_append]; omega)
      · exact odd_after_view pre v odd hodd hv
      · rw [sum_words_append]
        cases odd
        · -- no byte carried in: the view is summed whole
          have hnot : ¬pre.length % 2 = 1 := by simpa using hodd
          simp only [Bool.false_eq_true, if_false, if_neg hnot]
          rw [calculateChecksum_toNat _ _ (by simp; omega) (by omega), UInt16.toNat_toUInt32,
            hsum, reduce_reduce_add, Nat.add_assoc]
        · -- the first byte completes the carried word
          have hpar : pre.length % 2 = 1 := by simpa using hodd
          simp only [if_true, if_pos hpar]
          have hs : (sum.toUInt32 + (v.headD 0).toUInt32).toNat = sum.toNat + (v.headD 0).toNat := by
            simp only [UInt32.toNat_add, UInt16.toNat_toUInt32, UInt8.toNat_toUInt32]
            omega
          rw [calculateChecksum_toNat _ _ (by omega) (by simp; omega), hs, hsum, Nat.add_assoc,
            reduce_reduce_add]
          congr 1
          omega

/-- Both checksum paths compute RFC 1071's checksum of the bytes of a
`VectorisedView` below `2^17` bytes, however it is split into views. -/
theorem checksumVV_eq_checksum (vv : VectorisedView UInt8) (initial : UInt16)
    (hlen : vv.bytes.length < 2 ^ 17) :
    checksumVV vv initial = checksum vv.bytes initial ∧
      (checksum vv.bytes initial).toNat = onesSum initial.toNat vv.bytes := by
  have hspec := checksum_toNat vv.bytes initial hlen
  refine ⟨?_, hspec⟩
  apply UInt16.toNat_inj.mp
  have hviews := checksumViews_toNat initial.toNat vv.views [] false initial (by simp)
    (by simp [words, reduce_of_lt initial.toNat_lt]) (by rw [List.length_nil, Nat.zero_add]; exact hlen)
  rw [hspec, onesSum, foldCarries_eq_reduce (by omega), checksumVV, hviews, List.nil_append]
  rfl

/-- A packet split into an odd first view, an empty view and an odd last view. -/
theorem checksumVV_eq_checksum_oddViews :
    (⟨[[0x45, 0x00, 0x1c], [], [0x12, 0x34]], 5⟩ : VectorisedView UInt8).bytes.length < 2 ^ 17 ∧
      checksumVV ⟨[[0x45, 0x00, 0x1c], [], [0x12, 0x34]], 5⟩ 0xbeef =
        checksum [0x45, 0x00, 0x1c, 0x12, 0x34] 0xbeef ∧
      (checksum [0x45, 0x00, 0x1c, 0x12, 0x34] 0xbeef).toNat =
        onesSum (0xbeef : UInt16).toNat [0x45, 0x00, 0x1c, 0x12, 0x34] :=
  ⟨by decide, checksumVV_eq_checksum ⟨[[0x45, 0x00, 0x1c], [], [0x12, 0x34]], 5⟩ 0xbeef (by decide)⟩

end ContainerFS.Checksum
