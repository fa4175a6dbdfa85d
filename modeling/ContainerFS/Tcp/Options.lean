import ContainerFS.Lib.Wire
import ContainerFS.Tcp.Sack
import Mathlib.Data.Int.Bitwise

/-!
TCP options (`header/tcp.go`): the encoders, which write one option into a
slice, and the two parsers, `ParseTCPOptions` for every segment and
`ParseSynOptions` for a SYN. The parsers walk the options with the same loop:
`EOL` ends them, `NOP` is one byte, and an option of a kind the parser does not
read is skipped by its length; they differ only in the kinds they read. So
the loop is one definition, `parseLoop`, and each parser gives it the branches
of its own `switch` (`tcpOptionsBranch`, `synOptionsBranch`). A read past the
end of the slice is a panic in Go and `none` here.

The parsers never read past the end, and they end on every input, since each
step moves forward (`parseTCPOptions_isSome`, `parseSynOptions_isSome`). On an
option area the encoders wrote, each parser returns what the options say
(`OptionField.tcpEffect`, `OptionField.synEffect`), read in order so that the
last option of a kind wins.
-/

namespace ContainerFS.Tcp

open Wire

/-! ### Kinds and results -/

def tcpOptionEOL : UInt8 := 0
def tcpOptionNOP : UInt8 := 1
def tcpOptionMSS : UInt8 := 2
def tcpOptionWS : UInt8 := 3
def tcpOptionTS : UInt8 := 8
def tcpOptionSACKPermitted : UInt8 := 4
def tcpOptionSACK : UInt8 := 5

def maxWndScale : ℤ := 14

def tcpMaxSACKBlocks : ℕ := 4

structure TCPOptions where
  ts : Bool
  tsVal : UInt32
  tsEcr : UInt32
  sackBlocks : List SACKBlock
  deriving DecidableEq, Repr

/-- `TCPSynOptions`; the window scale is a Go `int`. -/
structure TCPSynOptions where
  mss : UInt16
  ws : ℤ
  ts : Bool
  tsVal : UInt32
  tsEcr : UInt32
  sackPermitted : Bool
  deriving DecidableEq, Repr

/-- `binary.BigEndian.Uint32(b[k:])`, which panics unless four bytes are left. -/
def uint32At (b : List UInt8) (k : ℕ) : Option UInt32 :=
  if k + 4 ≤ b.length then some (uint32BE (b.drop k)) else none

/-! ### The parsers -/

/-- What a parser's `switch` does with an option of a kind it reads: return
what it has, for a malformed option, or go on at a later index; `skip` leaves
the option to the `default` branch. -/
inductive Branch (σ : Type) (i : ℕ) where
  | stop (s : σ)
  | next (s : σ) (j : ℕ) (hj : i < j)
  | skip

/-- The loop of both parsers from index `i`, with the branches for the kinds a
parser reads in `branch`. `EOL` sets `i = limit`, which ends the loop. -/
def parseLoop {σ : Type} (branch : List UInt8 → σ → (i : ℕ) → UInt8 → Option (Branch σ i))
    (b : List UInt8) (s : σ) (i : ℕ) : Option σ :=
  if _hi : i < b.length then do
    let kind ← b[i]?
    if kind = tcpOptionEOL then pure s
    else if kind = tcpOptionNOP then parseLoop branch b s (i + 1)
    else
      match ← branch b s i kind with
      | .stop s => pure s
      | .next s j _hj => parseLoop branch b s j
      | .skip =>
        -- `default`: an option this parser does not read, skipped by its length
        if i + 2 > b.length then pure s
        else do
          let l := (← b[i + 1]?).toNat
          if _h : l < 2 ∨ i + l > b.length then pure s
          else parseLoop branch b s (i + l)
  else pure s
termination_by b.length - i
decreasing_by all_goals omega

/-- A SACK option's length passes `(sackOptionLen-2)%8 == 0` only from `2` on. -/
theorem sackOptionLen_pos {n : ℕ} (h : ¬((n : ℤ) - 2).tmod 8 ≠ 0) : 0 < n := by
  rcases n with _ | _ | n
  · exact absurd h (by decide)
  · exact absurd h (by decide)
  · omega

/-- The loop of `ParseTCPOptions` over the blocks of a SACK option, the two
big-endian words of each block from `k` on. -/
def readSACKBlocks (b : List UInt8) (k : ℕ) : ℕ → Option (List SACKBlock)
  | 0 => pure []
  | n + 1 => do
    let start ← uint32At b k
    let stop ← uint32At b (k + 4)
    let blocks ← readSACKBlocks b (k + 8) n
    pure (⟨start, stop⟩ :: blocks)

/-- The `switch` of `ParseTCPOptions` on the kinds it reads: timestamps and
SACK blocks. -/
def tcpOptionsBranch (b : List UInt8) (opts : TCPOptions) (i : ℕ) (kind : UInt8) :
    Option (Branch TCPOptions i) :=
  if kind = tcpOptionTS then
    if i + 10 > b.length then pure (.stop opts)
    else do
      if (← b[i + 1]?) ≠ 10 then pure (.stop opts)
      else
        let tsVal ← uint32At b (i + 2)
        let tsEcr ← uint32At b (i + 6)
        pure (.next { opts with ts := true, tsVal, tsEcr } (i + 10)
          (Nat.lt_add_of_pos_right (Nat.succ_pos 9)))
  else if kind = tcpOptionSACK then
    if i + 2 > b.length then pure (.stop opts)
    else do
      let sackOptionLen := (← b[i + 1]?).toNat
      if h : i + sackOptionLen > b.length ∨ ((sackOptionLen : ℤ) - 2).tmod 8 ≠ 0 then
        pure (.stop opts)
      else
        let blocks ← readSACKBlocks b (i + 2) ((sackOptionLen - 2) / 8)
        pure (.next { opts with sackBlocks := blocks } (i + sackOptionLen)
          (Nat.lt_add_of_pos_right (sackOptionLen_pos (not_or.mp h).2)))
  else pure .skip

/-- `TCPOptions{}`. -/
def emptyTCPOptions : TCPOptions := ⟨false, 0, 0, []⟩

def parseTCPOptions (b : List UInt8) : Option TCPOptions :=
  parseLoop tcpOptionsBranch b emptyTCPOptions 0

/-- The `switch` of `ParseSynOptions` on the kinds it reads: MSS, window scale,
timestamps and SACK-permitted. -/
def synOptionsBranch (isAck : Bool) (opts : List UInt8) (synOpts : TCPSynOptions) (i : ℕ)
    (kind : UInt8) : Option (Branch TCPSynOptions i) :=
  if kind = tcpOptionMSS then
    if i + 4 > opts.length then pure (.stop synOpts)
    else do
      if (← opts[i + 1]?) ≠ 4 then pure (.stop synOpts)
      else
        let mss := (← opts[i + 2]?).toUInt16 <<< 8 ||| (← opts[i + 3]?).toUInt16
        if mss = 0 then pure (.stop synOpts)
        else pure (.next { synOpts with mss } (i + 4) (Nat.lt_add_of_pos_right (Nat.succ_pos 3)))
  else if kind = tcpOptionWS then
    if i + 3 > opts.length then pure (.stop synOpts)
    else do
      if (← opts[i + 1]?) ≠ 3 then pure (.stop synOpts)
      else
        let ws : ℤ := (← opts[i + 2]?).toNat
        let ws := if ws > maxWndScale then maxWndScale else ws
        pure (.next { synOpts with ws } (i + 3) (Nat.lt_add_of_pos_right (Nat.succ_pos 2)))
  else if kind = tcpOptionTS then
    if i + 10 > opts.length then pure (.stop synOpts)
    else do
      if (← opts[i + 1]?) ≠ 10 then pure (.stop synOpts)
      else
        let tsVal ← uint32At opts (i + 2)
        -- the echo is read from a SYN-ACK only
        let tsEcr ← if isAck then uint32At opts (i + 6) else pure synOpts.tsEcr
        pure (.next { synOpts with tsVal, tsEcr, ts := true } (i + 10)
          (Nat.lt_add_of_pos_right (Nat.succ_pos 9)))
  else if kind = tcpOptionSACKPermitted then
    if i + 2 > opts.length then pure (.stop synOpts)
    else do
      if (← opts[i + 1]?) ≠ 2 then pure (.stop synOpts)
      else pure (.next { synOpts with sackPermitted := true } (i + 2)
        (Nat.lt_add_of_pos_right (Nat.succ_pos 1)))
  else pure .skip

/-- The options of a SYN before any is read: the MSS of RFC 1122, 536, when
none is sent, and no window scaling. -/
def defaultSynOptions : TCPSynOptions := ⟨536, -1, false, 0, 0, false⟩

def parseSynOptions (opts : List UInt8) (isAck : Bool) : Option TCPSynOptions :=
  parseLoop (synOptionsBranch isAck) opts defaultSynOptions 0

/-! ### The encoders

Each encoder gets the slice it writes into and returns the slice after the
write and the count it returns; with too little room it writes nothing. -/

def encodeMSSOption (mss : UInt32) (b : List UInt8) : List UInt8 × ℕ :=
  if b.length < 4 then (b, 0)
  else ([tcpOptionMSS, 4, (mss >>> 8).toUInt8, mss.toUInt8] ++ b.drop 4, 4)

def encodeWSOption (ws : ℤ) (b : List UInt8) : List UInt8 × ℕ :=
  if b.length < 3 then (b, 0)
  else ([tcpOptionWS, 3, UInt8.ofInt ws] ++ b.drop 3, 3)

def encodeTSOption (tsVal tsEcr : UInt32) (b : List UInt8) : List UInt8 × ℕ :=
  if b.length < 10 then (b, 0)
  else ([tcpOptionTS, 10] ++ putUint32BE tsVal ++ putUint32BE tsEcr ++ b.drop 10, 10)

def encodeSACKPermittedOption (b : List UInt8) : List UInt8 × ℕ :=
  if b.length < 2 then (b, 0)
  else ([tcpOptionSACKPermitted, 2] ++ b.drop 2, 2)

/-- The eight bytes of a block in a SACK option. -/
def sackBlockBytes (blk : SACKBlock) : List UInt8 := putUint32BE blk.start ++ putUint32BE blk.stop

/-- `EncodeSACKBlocks`: as many blocks as the option and the slice hold. -/
def encodeSACKBlocks (sackBlocks : List SACKBlock) (b : List UInt8) : List UInt8 × ℕ :=
  if sackBlocks.length = 0 then (b, 0)
  else
    let l := min (min sackBlocks.length tcpMaxSACKBlocks) ((b.length - 2) / 8)
    if l = 0 then (b, 0)
    else
      let len := (l * 8 + 2).toUInt8
      ([tcpOptionSACK, len] ++ (sackBlocks.take l).flatMap sackBlockBytes ++ b.drop (l * 8 + 2),
        len.toNat)

def encodeNOP (b : List UInt8) : List UInt8 × ℕ :=
  if b.length = 0 then (b, 0) else ([tcpOptionNOP] ++ b.drop 1, 1)

/-- `AddTCPOptionPadding`: `NOP`s from `offset` up to a multiple of four; a slice
too short for them panics. -/
def addTCPOptionPadding (options : List UInt8) (offset : ℕ) : Option (List UInt8 × ℕ) :=
  let paddingToAdd := (Int.land (-(offset : ℤ)) 3).toNat
  if offset + paddingToAdd ≤ options.length then
    some (options.take offset ++ List.replicate paddingToAdd tcpOptionNOP ++
      options.drop (offset + paddingToAdd), paddingToAdd)
  else none


/-- `-offset & 3` is the count of bytes up to the next multiple of four. -/
theorem land_neg_three (n : ℕ) : (Int.land (-(n : ℤ)) 3).toNat = (4 - n % 4) % 4 := by
  rcases n with _ | m
  · rfl
  · -- `-(m + 1)` is `-[m+1]`, whose `land` with `3` clears the bits of `m`
    have hland : Int.land (-((m + 1 : ℕ) : ℤ)) 3 = (Nat.ldiff 3 m : ℤ) := rfl
    have hlow : Nat.ldiff 3 m = Nat.ldiff 3 (m % 4) := by
      apply Nat.eq_of_testBit_eq
      intro k
      rw [Nat.testBit_ldiff, Nat.testBit_ldiff, show 4 = 2 ^ 2 from rfl, Nat.testBit_mod_two_pow]
      by_cases hk : k < 2
      · simp [hk]
      · have h3 : Nat.testBit 3 k = false :=
          Nat.testBit_lt_two_pow (lt_of_lt_of_le (by decide : 3 < 2 ^ 2)
            (Nat.pow_le_pow_right (by decide) (by omega)))
        simp [h3]
    rw [hland, Int.toNat_natCast, hlow]
    have hm : m % 4 < 4 := Nat.mod_lt m (by decide)
    have hsucc : (m + 1) % 4 = (m % 4 + 1) % 4 := by omega
    rw [hsucc]
    -- the remainder is one of four values
    generalize m % 4 = r at hm ⊢
    revert r
    decide +kernel

/-! ### Reading at an offset -/

section Reads

variable {α : Type}

theorem getElem?_append_shift (pre rest : List α) (k : ℕ) :
    (pre ++ rest)[pre.length + k]? = rest[k]? := by
  rw [List.getElem?_append_right (by omega), Nat.add_sub_cancel_left]

theorem uint32At_of_le {b : List UInt8} {k : ℕ} (h : k + 4 ≤ b.length) :
    uint32At b k = some (uint32BE (b.drop k)) := by
  rw [uint32At, if_pos h]

theorem uint32At_append_shift (pre rest : List UInt8) (k : ℕ) :
    uint32At (pre ++ rest) (pre.length + k) = uint32At rest k := by
  have hfits : pre.length + k + 4 ≤ (pre ++ rest).length ↔ k + 4 ≤ rest.length := by
    rw [List.length_append]
    omega
  simp only [uint32At, hfits, List.drop_length_add_append]

theorem uint32At_putUint32BE (v : UInt32) (rest : List UInt8) :
    uint32At (putUint32BE v ++ rest) 0 = some v := by
  rw [uint32At_of_le (by simp), List.drop_zero, uint32BE_putUint32BE_append]

theorem readSACKBlocks_append_shift (pre rest : List UInt8) (n : ℕ) :
    ∀ k, readSACKBlocks (pre ++ rest) (pre.length + k) n = readSACKBlocks rest k n := by
  induction n with
  | zero => intro k; rfl
  | succ n ih =>
    intro k
    simp only [readSACKBlocks, Nat.add_assoc, uint32At_append_shift, ih]

theorem length_flatMap_sackBlockBytes (bs : List SACKBlock) :
    (bs.flatMap sackBlockBytes).length = 8 * bs.length := by
  induction bs with
  | nil => rfl
  | cons blk bs ih =>
    simp only [List.flatMap_cons, List.length_append, ih, sackBlockBytes, length_putUint32BE,
      List.length_cons]
    omega

/-- The blocks a SACK option holds are read back. -/
theorem readSACKBlocks_flatMap (bs : List SACKBlock) (rest : List UInt8) :
    readSACKBlocks (bs.flatMap sackBlockBytes ++ rest) 0 bs.length = some bs := by
  induction bs with
  | nil => rfl
  | cons blk bs ih =>
    -- the block's two words, then the blocks after it eight bytes on
    have hstop := uint32At_append_shift (putUint32BE blk.start)
      (putUint32BE blk.stop ++ (bs.flatMap sackBlockBytes ++ rest)) 0
    have hshift := readSACKBlocks_append_shift (putUint32BE blk.start ++ putUint32BE blk.stop)
      (bs.flatMap sackBlockBytes ++ rest) bs.length 0
    simp only [length_putUint32BE, Nat.add_zero, List.length_append, List.append_assoc,
      Nat.reduceAdd] at hstop hshift
    simp only [List.flatMap_cons, sackBlockBytes, List.append_assoc, List.length_cons,
      readSACKBlocks, uint32At_putUint32BE, hstop, Nat.zero_add, hshift, ih, Option.bind_eq_bind,
      Option.bind_some]
    rfl

theorem readSACKBlocks_isSome (b : List UInt8) (n : ℕ) :
    ∀ k, k + 8 * n ≤ b.length → (readSACKBlocks b k n).isSome := by
  induction n with
  | zero => intro k _; rfl
  | succ n ih =>
    intro k hk
    obtain ⟨blocks, hblocks⟩ := Option.isSome_iff_exists.mp (ih (k + 8) (by omega))
    simp [readSACKBlocks, uint32At_of_le (show k + 4 ≤ b.length by omega),
      uint32At_of_le (show k + 4 + 4 ≤ b.length by omega), hblocks]

end Reads

/-! ### The loop -/

section Loop

variable {σ : Type} {branch : List UInt8 → σ → (i : ℕ) → UInt8 → Option (Branch σ i)}
  {b : List UInt8} {s : σ} {i : ℕ}

theorem parseLoop_of_le (h : b.length ≤ i) : parseLoop branch b s i = some s := by
  rw [parseLoop, dif_neg (by omega)]
  rfl

theorem parseLoop_nop (h : b[i]? = some tcpOptionNOP) :
    parseLoop branch b s i = parseLoop branch b s (i + 1) := by
  have hi : i < b.length := (List.getElem?_eq_some_iff.mp h).1
  rw [parseLoop, dif_pos hi, h]
  simp [tcpOptionEOL, tcpOptionNOP]

theorem parseLoop_next {kind : UInt8} {s' : σ} {j : ℕ} {hj : i < j}
    (hk : b[i]? = some kind) (heol : kind ≠ tcpOptionEOL) (hnop : kind ≠ tcpOptionNOP)
    (hb : branch b s i kind = some (.next s' j hj)) :
    parseLoop branch b s i = parseLoop branch b s' j := by
  have hi : i < b.length := (List.getElem?_eq_some_iff.mp hk).1
  rw [parseLoop, dif_pos hi, hk]
  simp [heol, hnop, hb]

theorem parseLoop_skip {kind l : UInt8} {n : ℕ}
    (hk : b[i]? = some kind) (heol : kind ≠ tcpOptionEOL) (hnop : kind ≠ tcpOptionNOP)
    (hb : branch b s i kind = some .skip) (hl : b[i + 1]? = some l) (hlen : l.toNat = n)
    (hn : 2 ≤ n) (hfit : i + n ≤ b.length) :
    parseLoop branch b s i = parseLoop branch b s (i + n) := by
  have hi : i < b.length := (List.getElem?_eq_some_iff.mp hk).1
  rw [parseLoop, dif_pos hi, hk]
  simp only [Option.bind_eq_bind, heol, hnop, hb, hl, if_false, Option.bind_some, hlen]
  rw [if_neg (by omega), dif_neg (by omega)]

/-- The loop never reads past the end when its branches do not: `EOL`, `NOP`
and `default` read only below the bounds they check. -/
theorem parseLoop_isSome (hbranch : ∀ s i kind, i < b.length → (branch b s i kind).isSome)
    (s : σ) (i : ℕ) : (parseLoop branch b s i).isSome := by
  fun_induction parseLoop branch b s i with
  | case1 s i hi ih_nop ih_next ih_skip =>
    rw [List.getElem?_eq_getElem hi]
    simp only [Option.bind_eq_bind, Option.bind_some]
    by_cases heol : b[i] = tcpOptionEOL
    · rw [if_pos heol]
      rfl
    rw [if_neg heol]
    by_cases hnop : b[i] = tcpOptionNOP
    · rw [if_pos hnop]
      exact ih_nop
    rw [if_neg hnop]
    obtain ⟨r, hr⟩ := Option.isSome_iff_exists.mp (hbranch s i b[i] hi)
    rw [hr, Option.bind_some]
    cases r with
    | stop s' => rfl
    | next s' j hj => exact ih_next s' j hj
    | skip =>
      dsimp only
      by_cases hshort : i + 2 > b.length
      · rw [if_pos hshort]
        rfl
      rw [if_neg hshort, List.getElem?_eq_getElem (by omega), Option.bind_some]
      split_ifs with hbad
      · rfl
      · exact ih_skip hshort _ hbad
  | case2 => rfl

/-- `NOP`s are passed over one by one. -/
theorem parseLoop_replicate_nop (pre rest : List UInt8) (k : ℕ) (s : σ) :
    parseLoop branch (pre ++ List.replicate k tcpOptionNOP ++ rest) s pre.length =
      parseLoop branch (pre ++ List.replicate k tcpOptionNOP ++ rest) s (pre.length + k) := by
  induction k generalizing pre with
  | zero => rfl
  | succ k ih =>
    have hsplit : pre ++ List.replicate (k + 1) tcpOptionNOP ++ rest =
        (pre ++ [tcpOptionNOP]) ++ List.replicate k tcpOptionNOP ++ rest := by
      simp [List.replicate_succ]
    have hnop : (pre ++ List.replicate (k + 1) tcpOptionNOP ++ rest)[pre.length]? =
        some tcpOptionNOP := by
      rw [List.append_assoc, ← Nat.add_zero pre.length, getElem?_append_shift]
      rfl
    rw [parseLoop_nop hnop, hsplit]
    have hlen : (pre ++ [tcpOptionNOP]).length = pre.length + 1 := by simp
    rw [← hlen, ih, hlen]
    congr 1
    omega

end Loop

/-! ### Every input is parsed without a panic -/

theorem tcpOptionsBranch_isSome (b : List UInt8) (opts : TCPOptions) (i : ℕ) (kind : UInt8) :
    (tcpOptionsBranch b opts i kind).isSome := by
  unfold tcpOptionsBranch
  by_cases hts : kind = tcpOptionTS
  · rw [if_pos hts]
    by_cases hshort : i + 10 > b.length
    · rw [if_pos hshort]
      rfl
    rw [if_neg hshort, List.getElem?_eq_getElem (by omega)]
    simp only [Option.bind_eq_bind, Option.bind_some]
    split_ifs
    · rfl
    · simp [uint32At_of_le (show i + 2 + 4 ≤ b.length by omega),
        uint32At_of_le (show i + 6 + 4 ≤ b.length by omega)]
  rw [if_neg hts]
  by_cases hsack : kind = tcpOptionSACK
  · rw [if_pos hsack]
    by_cases hshort : i + 2 > b.length
    · rw [if_pos hshort]
      rfl
    rw [if_neg hshort, List.getElem?_eq_getElem (by omega)]
    simp only [Option.bind_eq_bind, Option.bind_some]
    split_ifs with hbad
    · rfl
    · -- the blocks lie inside the option, which lies inside the slice
      have hfit := (not_or.mp hbad).1
      have hlen := sackOptionLen_pos (not_or.mp hbad).2
      obtain ⟨blocks, hblocks⟩ := Option.isSome_iff_exists.mp
        (readSACKBlocks_isSome b ((b[i + 1].toNat - 2) / 8) (i + 2) (by omega))
      simp [hblocks]
  rw [if_neg hsack]
  rfl

theorem synOptionsBranch_isSome (isAck : Bool) (b : List UInt8) (opts : TCPSynOptions) (i : ℕ)
    (kind : UInt8) : (synOptionsBranch isAck b opts i kind).isSome := by
  unfold synOptionsBranch
  by_cases hmss : kind = tcpOptionMSS
  · rw [if_pos hmss]
    by_cases hshort : i + 4 > b.length
    · rw [if_pos hshort]
      rfl
    rw [if_neg hshort]
    simp only [List.getElem?_eq_getElem (show i + 1 < b.length by omega),
      List.getElem?_eq_getElem (show i + 2 < b.length by omega),
      List.getElem?_eq_getElem (show i + 3 < b.length by omega), Option.bind_eq_bind,
      Option.bind_some]
    split_ifs <;> rfl
  rw [if_neg hmss]
  by_cases hws : kind = tcpOptionWS
  · rw [if_pos hws]
    by_cases hshort : i + 3 > b.length
    · rw [if_pos hshort]
      rfl
    rw [if_neg hshort]
    simp only [List.getElem?_eq_getElem (show i + 1 < b.length by omega),
      List.getElem?_eq_getElem (show i + 2 < b.length by omega), Option.bind_eq_bind,
      Option.bind_some]
    split_ifs <;> rfl
  rw [if_neg hws]
  by_cases hts : kind = tcpOptionTS
  · rw [if_pos hts]
    by_cases hshort : i + 10 > b.length
    · rw [if_pos hshort]
      rfl
    rw [if_neg hshort, List.getElem?_eq_getElem (by omega)]
    simp only [Option.bind_eq_bind, Option.bind_some]
    split_ifs <;> simp [uint32At_of_le (show i + 2 + 4 ≤ b.length by omega),
      uint32At_of_le (show i + 6 + 4 ≤ b.length by omega)]
  rw [if_neg hts]
  by_cases hsp : kind = tcpOptionSACKPermitted
  · rw [if_pos hsp]
    by_cases hshort : i + 2 > b.length
    · rw [if_pos hshort]
      rfl
    rw [if_neg hshort, List.getElem?_eq_getElem (by omega)]
    simp only [Option.bind_eq_bind, Option.bind_some]
    split_ifs <;> rfl
  rw [if_neg hsp]
  rfl

/-! ### Option areas -/

/-- One call of an option encoder, with its arguments. -/
inductive OptionField where
  | nop
  | mss (mss : UInt32)
  | ws (ws : ℤ)
  | ts (tsVal tsEcr : UInt32)
  | sackPermitted
  | sackBlocks (blocks : List SACKBlock)
  deriving DecidableEq, Repr

namespace OptionField

/-- The encoder a field calls. -/
def encode : OptionField → List UInt8 → List UInt8 × ℕ
  | nop => encodeNOP
  | mss m => encodeMSSOption m
  | ws w => encodeWSOption w
  | ts v e => encodeTSOption v e
  | sackPermitted => encodeSACKPermittedOption
  | sackBlocks bs => encodeSACKBlocks bs

/-- The bytes the encoder writes when the slice has room. -/
def bytes : OptionField → List UInt8
  | nop => [tcpOptionNOP]
  | mss m => [tcpOptionMSS, 4, (m >>> 8).toUInt8, m.toUInt8]
  | ws w => [tcpOptionWS, 3, UInt8.ofInt w]
  | ts v e => [tcpOptionTS, 10] ++ putUint32BE v ++ putUint32BE e
  | sackPermitted => [tcpOptionSACKPermitted, 2]
  | sackBlocks bs => [tcpOptionSACK, (bs.length * 8 + 2).toUInt8] ++ bs.flatMap sackBlockBytes

/-- How many bytes the option takes. -/
def size : OptionField → ℕ
  | nop => 1
  | mss _ => 4
  | ws _ => 3
  | ts _ _ => 10
  | sackPermitted => 2
  | sackBlocks bs => bs.length * 8 + 2

/-- The arguments with which an option says what it was given: an MSS that is
not zero and fits the 16 bits of the option, a window scale that fits its
byte, and one to `TCPMaxSACKBlocks` SACK blocks. -/
def WellFormed : OptionField → Prop
  | mss m => m ≠ 0 ∧ m.toNat < 2 ^ 16
  | ws w => 0 ≤ w ∧ w < 256
  | sackBlocks bs => bs ≠ [] ∧ bs.length ≤ tcpMaxSACKBlocks
  | _ => True

instance (f : OptionField) : Decidable f.WellFormed :=
  match f with
  | nop => inferInstanceAs (Decidable True)
  | mss m => inferInstanceAs (Decidable (m ≠ 0 ∧ m.toNat < 2 ^ 16))
  | ws w => inferInstanceAs (Decidable (0 ≤ w ∧ w < 256))
  | ts _ _ => inferInstanceAs (Decidable True)
  | sackPermitted => inferInstanceAs (Decidable True)
  | sackBlocks bs => inferInstanceAs (Decidable (bs ≠ [] ∧ bs.length ≤ tcpMaxSACKBlocks))

/-- What an option tells `ParseTCPOptions`. -/
def tcpEffect (opts : TCPOptions) : OptionField → TCPOptions
  | ts v e => { opts with ts := true, tsVal := v, tsEcr := e }
  | sackBlocks bs => { opts with sackBlocks := bs }
  | _ => opts

/-- What an option tells `ParseSynOptions`: the MSS, the window scale capped at
`MaxWndScale`, the timestamps with the echo in a SYN-ACK only, and that SACK is
permitted. -/
def synEffect (isAck : Bool) (opts : TCPSynOptions) : OptionField → TCPSynOptions
  | mss m => { opts with mss := m.toUInt16 }
  | ws w => { opts with ws := min w maxWndScale }
  | ts v e => { opts with ts := true, tsVal := v, tsEcr := if isAck then e else opts.tsEcr }
  | sackPermitted => { opts with sackPermitted := true }
  | _ => opts

@[simp]
theorem length_bytes (f : OptionField) : f.bytes.length = f.size := by
  cases f with
  | ts v e => simp [bytes, size]
  | sackBlocks bs =>
    simp only [bytes, size, List.length_append, length_flatMap_sackBlockBytes, List.length_cons,
      List.length_nil]
    omega
  | _ => rfl

/-- With room in the slice, an encoder writes its option's bytes. -/
theorem encode_of_room {f : OptionField} (hwf : f.WellFormed) {b : List UInt8}
    (hroom : f.size ≤ b.length) : f.encode b = (f.bytes ++ b.drop f.size, f.size) := by
  cases f with
  | nop =>
    simp only [size] at hroom
    simp [encode, encodeNOP, bytes, size, show b.length ≠ 0 by omega]
  | mss m =>
    simp only [size] at hroom
    simp [encode, encodeMSSOption, bytes, size, show ¬b.length < 4 by omega]
  | ws w =>
    simp only [size] at hroom
    simp [encode, encodeWSOption, bytes, size, show ¬b.length < 3 by omega]
  | ts v e =>
    simp only [size] at hroom
    simp [encode, encodeTSOption, bytes, size, show ¬b.length < 10 by omega]
  | sackPermitted =>
    simp only [size] at hroom
    simp [encode, encodeSACKPermittedOption, bytes, size, show ¬b.length < 2 by omega]
  | sackBlocks bs =>
    obtain ⟨hne, hmax⟩ := hwf
    simp only [size] at hroom
    have hpos : bs.length ≠ 0 := by simpa using hne
    have hmax4 : bs.length ≤ 4 := hmax
    -- every block fits: the option and the slice hold them all
    have hl : min (min bs.length tcpMaxSACKBlocks) ((b.length - 2) / 8) = bs.length := by
      rw [show tcpMaxSACKBlocks = 4 from rfl]
      omega
    simp only [encode, encodeSACKBlocks, bytes, size, hpos, hl, if_false, List.take_length]
    -- the length byte holds the option's length: at most `4 * 8 + 2`
    have hbyte : (bs.length * 8 + 2).toUInt8.toNat = bs.length * 8 + 2 := by
      simp only [Nat.toUInt8, UInt8.toNat_ofNat']
      omega
    rw [hbyte]

end OptionField

/-- The encoders called one after another on `options`, each on the slice from
the offset the ones before reached: `offset += EncodeX(options[offset:])`. -/
def encodeFields (options : List UInt8) (offset : ℕ) : List OptionField → List UInt8 × ℕ
  | [] => (options, offset)
  | f :: fs =>
    let written := f.encode (options.drop offset)
    encodeFields (options.take offset ++ written.1) (offset + written.2) fs

/-- An option area: the fields encoded into `options` from its start, then
`AddTCPOptionPadding`, cut after the padding as `makeSynOptions` cuts it. -/
def buildOptions (fs : List OptionField) (options : List UInt8) : Option (List UInt8) := do
  let encoded := encodeFields options 0 fs
  let padded ← addTCPOptionPadding encoded.1 encoded.2
  pure (padded.1.take (encoded.2 + padded.2))

/-- The bytes of the fields, one after another. -/
def fieldBytes (fs : List OptionField) : List UInt8 := fs.flatMap OptionField.bytes

theorem length_fieldBytes (fs : List OptionField) :
    (fieldBytes fs).length = (fs.map OptionField.size).sum := by
  induction fs with
  | nil => rfl
  | cons f fs ih =>
    simp only [fieldBytes] at ih
    simp only [fieldBytes, List.flatMap_cons, List.length_append, OptionField.length_bytes,
      List.map_cons, List.sum_cons, ih]

/-- With room in `options`, the encoders write the fields' bytes one after
another from `offset` and leave the rest of `options` as it was. -/
theorem encodeFields_of_room (fs : List OptionField) (hwf : ∀ f ∈ fs, f.WellFormed) :
    ∀ (options : List UInt8) (offset : ℕ), offset + (fs.map OptionField.size).sum ≤ options.length →
      encodeFields options offset fs =
        (options.take offset ++ fieldBytes fs ++ options.drop (offset + (fs.map OptionField.size).sum),
          offset + (fs.map OptionField.size).sum) := by
  induction fs with
  | nil => intro options offset _; simp [encodeFields, fieldBytes]
  | cons f fs ih =>
    intro options offset hroom
    simp only [List.map_cons, List.sum_cons] at hroom
    set total := (fs.map OptionField.size).sum with htotal
    have hf := hwf f List.mem_cons_self
    have hencode := OptionField.encode_of_room hf (b := options.drop offset)
      (by rw [List.length_drop]; omega)
    -- after this field: the prefix, the field's bytes, and the rest of `options`
    set written := options.take offset ++ f.bytes with hwritten
    have hwritten_len : written.length = offset + f.size := by
      simp only [hwritten, List.length_append, List.length_take, OptionField.length_bytes]
      omega
    have hnext : options.take offset ++ (f.bytes ++ (options.drop offset).drop f.size) =
        written ++ options.drop (offset + f.size) := by
      simp [hwritten, List.drop_drop]
    have hnext_len : (written ++ options.drop (offset + f.size)).length = options.length := by
      simp only [List.length_append, hwritten_len, List.length_drop]
      omega
    rw [encodeFields, hencode]
    dsimp only
    rw [hnext, ih (fun g hg => hwf g (List.mem_cons_of_mem f hg)) _ _ (by omega),
      List.take_left' hwritten_len, ← hwritten_len, List.drop_length_add_append, List.drop_drop,
      hwritten_len]
    simp only [hwritten, fieldBytes, List.flatMap_cons, List.append_assoc, Nat.add_assoc,
      List.map_cons, List.sum_cons, ← htotal]


/-- `AddTCPOptionPadding` with room for the padding. -/
theorem addTCPOptionPadding_of_room (options : List UInt8) (offset : ℕ)
    (h : offset + (4 - offset % 4) % 4 ≤ options.length) :
    addTCPOptionPadding options offset =
      some (options.take offset ++ List.replicate ((4 - offset % 4) % 4) tcpOptionNOP ++
        options.drop (offset + (4 - offset % 4) % 4), (4 - offset % 4) % 4) := by
  simp only [addTCPOptionPadding, land_neg_three, if_pos h]

/-- The option area `buildOptions` makes from fields with room: their bytes,
then the `NOP`s up to a multiple of four. -/
theorem buildOptions_of_room (fs : List OptionField) (hwf : ∀ f ∈ fs, f.WellFormed)
    (options : List UInt8)
    (hroom : (fs.map OptionField.size).sum + (4 - (fs.map OptionField.size).sum % 4) % 4 ≤
      options.length) :
    buildOptions fs options = some (fieldBytes fs ++
      List.replicate ((4 - (fs.map OptionField.size).sum % 4) % 4) tcpOptionNOP) := by
  set total := (fs.map OptionField.size).sum with htotal
  set pad := (4 - total % 4) % 4 with hpad
  have henc := encodeFields_of_room fs hwf options 0 (by omega)
  simp only [Nat.zero_add, List.take_zero, List.nil_append, ← htotal] at henc
  have hlen : (fieldBytes fs).length = total := length_fieldBytes fs
  have hencoded_len : (fieldBytes fs ++ options.drop total).length = options.length := by
    simp only [List.length_append, hlen, List.length_drop]
    omega
  have hpadded := addTCPOptionPadding_of_room (fieldBytes fs ++ options.drop total) total
    (by rw [hencoded_len]; exact hroom)
  simp only [buildOptions, henc, hpadded, Option.bind_eq_bind, Option.bind_some,
    List.take_left' hlen]
  -- the area is cut right after the padding
  have harea_len : (fieldBytes fs ++ List.replicate pad tcpOptionNOP).length = total + pad := by
    simp [hlen]
  rw [List.append_assoc (fieldBytes fs), ← List.append_assoc, List.take_left' harea_len]
  rfl

/-! ### Parsing an option area -/

theorem getElem?_field (pre rest : List UInt8) (f : OptionField) (j : ℕ) (hj : j < f.size) :
    (pre ++ (f.bytes ++ rest))[pre.length + j]? = f.bytes[j]? := by
  rw [getElem?_append_shift, List.getElem?_append_left (by simpa using hj)]

theorem getElem?_field_kind (pre rest : List UInt8) (f : OptionField) :
    (pre ++ (f.bytes ++ rest))[pre.length]? = f.bytes[0]? := by
  have hpos : 0 < f.size := by cases f <;> simp [OptionField.size]
  simpa using getElem?_field pre rest f 0 hpos

theorem uint32At_tsVal (pre rest : List UInt8) (v e : UInt32) :
    uint32At (pre ++ ((OptionField.ts v e).bytes ++ rest)) (pre.length + 2) = some v := by
  have hsplit : pre ++ ((OptionField.ts v e).bytes ++ rest) =
      (pre ++ [tcpOptionTS, 10]) ++ (putUint32BE v ++ (putUint32BE e ++ rest)) := by
    simp [OptionField.bytes]
  have hlen : pre.length + 2 = (pre ++ [tcpOptionTS, 10]).length + 0 := by simp
  rw [hsplit, hlen, uint32At_append_shift, uint32At_putUint32BE]

theorem uint32At_tsEcr (pre rest : List UInt8) (v e : UInt32) :
    uint32At (pre ++ ((OptionField.ts v e).bytes ++ rest)) (pre.length + 6) = some e := by
  have hsplit : pre ++ ((OptionField.ts v e).bytes ++ rest) =
      (pre ++ [tcpOptionTS, 10] ++ putUint32BE v) ++ (putUint32BE e ++ rest) := by
    simp [OptionField.bytes]
  have hlen : pre.length + 6 = (pre ++ [tcpOptionTS, 10] ++ putUint32BE v).length + 0 := by simp
  rw [hsplit, hlen, uint32At_append_shift, uint32At_putUint32BE]

theorem readSACKBlocks_field (pre rest : List UInt8) (bs : List SACKBlock) :
    readSACKBlocks (pre ++ ((OptionField.sackBlocks bs).bytes ++ rest)) (pre.length + 2)
      bs.length = some bs := by
  have hsplit : pre ++ ((OptionField.sackBlocks bs).bytes ++ rest) =
      (pre ++ [tcpOptionSACK, (bs.length * 8 + 2).toUInt8]) ++
        (bs.flatMap sackBlockBytes ++ rest) := by
    simp [OptionField.bytes]
  have hlen : pre.length + 2 =
      (pre ++ [tcpOptionSACK, (bs.length * 8 + 2).toUInt8]).length + 0 := by
    simp
  rw [hsplit, hlen, readSACKBlocks_append_shift, readSACKBlocks_flatMap]

/-- The length byte of a SACK option of one to four blocks. -/
theorem sackLength_toNat {bs : List SACKBlock} (hmax : bs.length ≤ tcpMaxSACKBlocks) :
    (bs.length * 8 + 2).toUInt8.toNat = bs.length * 8 + 2 := by
  have hmax4 : bs.length ≤ 4 := hmax
  simp only [Nat.toUInt8, UInt8.toNat_ofNat']
  omega

/-- The two MSS bytes read back as the MSS, when it fits 16 bits. -/
theorem mss_of_bytes (m : UInt32) (hm : m.toNat < 2 ^ 16) :
    (m >>> 8).toUInt8.toUInt16 <<< 8 ||| m.toUInt8.toUInt16 = m.toUInt16 := by
  apply UInt16.toNat_inj.mp
  simp only [UInt16.toNat_or, UInt16.toNat_shiftLeft, UInt8.toNat_toUInt16, UInt32.toNat_toUInt8,
    UInt32.toNat_shiftRight, UInt32.toNat_toUInt16, UInt16.reduceToNat, UInt32.reduceToNat,
    Nat.reduceMod]
  have hlo : m.toNat % 2 ^ 8 < 2 ^ 8 := Nat.mod_lt _ (by decide)
  have hhi : ((m.toNat >>> 8) % 2 ^ 8) <<< 8 < 2 ^ 16 := by
    rw [Nat.shiftLeft_eq]
    omega
  rw [Nat.mod_eq_of_lt hhi, ← Nat.shiftLeft_add_eq_or_of_lt hlo, Nat.shiftLeft_eq,
    Nat.shiftRight_eq_div_pow]
  omega

/-- A window scale written as one byte is read back, capped at `MaxWndScale`. -/
theorem ws_of_byte (w : ℤ) (hw : 0 ≤ w ∧ w < 256) :
    (if ((UInt8.ofInt w).toNat : ℤ) > maxWndScale then maxWndScale
      else ((UInt8.ofInt w).toNat : ℤ)) = min w maxWndScale := by
  have hbyte : ((UInt8.ofInt w).toNat : ℤ) = w := by
    rw [UInt8.ofInt, UInt8.toNat_ofNat']
    omega
  rw [hbyte, min_def]
  split_ifs <;> omega

section Fields

variable (pre rest : List UInt8)

/-- One option of an area, as `ParseTCPOptions` reads it: the options it does
not read are skipped by their length. -/
theorem parseTCPOptions_field {f : OptionField} (hwf : f.WellFormed) (opts : TCPOptions) :
    parseLoop tcpOptionsBranch (pre ++ (f.bytes ++ rest)) opts pre.length =
      parseLoop tcpOptionsBranch (pre ++ (f.bytes ++ rest)) (f.tcpEffect opts)
        (pre.length + f.size) := by
  have hkind := getElem?_field_kind pre rest f
  have hlen1 := getElem?_field pre rest f 1
  have hfit : pre.length + f.size ≤ (pre ++ (f.bytes ++ rest)).length := by simp
  cases f with
  | nop => exact parseLoop_nop hkind
  | mss m =>
    exact parseLoop_skip hkind (by decide) (by decide) rfl (hlen1 (by simp [OptionField.size])) rfl
      (by simp [OptionField.size]) hfit
  | ws w =>
    exact parseLoop_skip hkind (by decide) (by decide) rfl (hlen1 (by simp [OptionField.size])) rfl
      (by simp [OptionField.size]) hfit
  | sackPermitted =>
    exact parseLoop_skip hkind (by decide) (by decide) rfl (hlen1 (by simp [OptionField.size])) rfl
      (by simp [OptionField.size]) hfit
  | ts v e =>
    apply parseLoop_next hkind (by decide) (by decide)
    have hten : ¬pre.length + 10 > (pre ++ ((OptionField.ts v e).bytes ++ rest)).length := by
      simp [OptionField.bytes]
      omega
    have hlen : (pre ++ ((OptionField.ts v e).bytes ++ rest))[pre.length + 1]? = some 10 := by
      rw [hlen1 (by simp [OptionField.size])]
      rfl
    simp only [tcpOptionsBranch, if_true, if_neg hten, hlen, uint32At_tsVal, uint32At_tsEcr,
      Option.bind_eq_bind, Option.bind_some, ne_eq, not_true_eq_false, if_false]
    rfl
  | sackBlocks bs =>
    obtain ⟨hne, hmax⟩ := hwf
    have hbytes_len : ((OptionField.sackBlocks bs).bytes).length = bs.length * 8 + 2 := by
      simp only [OptionField.bytes, List.length_append, length_flatMap_sackBlockBytes,
        List.length_cons, List.length_nil]
      omega
    have hshort : ¬pre.length + 2 > (pre ++ ((OptionField.sackBlocks bs).bytes ++ rest)).length := by
      simp only [List.length_append, hbytes_len]
      omega
    have hlen : (pre ++ ((OptionField.sackBlocks bs).bytes ++ rest))[pre.length + 1]? =
        some (bs.length * 8 + 2).toUInt8 := by
      rw [hlen1 (by simp [OptionField.size])]
      rfl
    -- the length is the option's and passes the check of `(sackOptionLen-2)%8`
    have hgood : ¬(pre.length + (bs.length * 8 + 2) >
        (pre ++ ((OptionField.sackBlocks bs).bytes ++ rest)).length ∨
        (((bs.length * 8 + 2 : ℕ) : ℤ) - 2).tmod 8 ≠ 0) := by
      simp only [not_or, not_not]
      constructor
      · simp only [List.length_append, hbytes_len]
        omega
      · rw [show ((bs.length * 8 + 2 : ℕ) : ℤ) - 2 = ((bs.length * 8 : ℕ) : ℤ) by push_cast; ring,
          Int.tmod_eq_emod_of_nonneg (by omega)]
        omega
    have hblocks : (bs.length * 8 + 2 - 2) / 8 = bs.length := by omega
    apply parseLoop_next hkind (by decide) (by decide)
    simp only [tcpOptionsBranch, if_neg (show tcpOptionSACK ≠ tcpOptionTS by decide), if_true,
      if_neg hshort, hlen, sackLength_toNat hmax, Option.bind_eq_bind, Option.bind_some,
      dif_neg hgood, hblocks, readSACKBlocks_field]
    rfl

/-- One option of an area, as `ParseSynOptions` reads it. -/
theorem parseSynOptions_field (isAck : Bool) {f : OptionField} (hwf : f.WellFormed)
    (opts : TCPSynOptions) :
    parseLoop (synOptionsBranch isAck) (pre ++ (f.bytes ++ rest)) opts pre.length =
      parseLoop (synOptionsBranch isAck) (pre ++ (f.bytes ++ rest)) (f.synEffect isAck opts)
        (pre.length + f.size) := by
  have hkind := getElem?_field_kind pre rest f
  have hbyte := getElem?_field pre rest f
  have hfit : pre.length + f.size ≤ (pre ++ (f.bytes ++ rest)).length := by simp
  cases f with
  | nop => exact parseLoop_nop hkind
  | sackBlocks bs =>
    obtain ⟨hne, hmax⟩ := hwf
    exact parseLoop_skip hkind (by decide) (by decide) rfl (hbyte 1 (by simp [OptionField.size]))
      (sackLength_toNat hmax) (by simp [OptionField.size]) hfit
  | mss m =>
    obtain ⟨hne, hm⟩ := hwf
    apply parseLoop_next hkind (by decide) (by decide)
    have hshort : ¬pre.length + 4 > (pre ++ ((OptionField.mss m).bytes ++ rest)).length := by
      simp [OptionField.bytes]
    -- an MSS that fits 16 bits and is not zero is not zero in 16 bits
    have hne16 : m.toUInt16 ≠ 0 := by
      intro h0
      apply hne
      apply UInt32.toNat_inj.mp
      have h0' := congrArg UInt16.toNat h0
      simp only [UInt32.toNat_toUInt16, UInt16.toNat_zero] at h0'
      simp only [UInt32.toNat_zero]
      omega
    simp only [synOptionsBranch, if_true, if_neg hshort, hbyte 1 (by simp [OptionField.size]),
      hbyte 2 (by simp [OptionField.size]), hbyte 3 (by simp [OptionField.size]),
      Option.bind_eq_bind]
    simp only [OptionField.bytes, List.getElem?_cons_succ, List.getElem?_cons_zero,
      Option.bind_some, mss_of_bytes m hm, if_neg hne16, ne_eq, not_true_eq_false, if_false]
    rfl
  | ws w =>
    apply parseLoop_next hkind (by decide) (by decide)
    have hshort : ¬pre.length + 3 > (pre ++ ((OptionField.ws w).bytes ++ rest)).length := by
      simp [OptionField.bytes]
    simp only [synOptionsBranch, if_neg (show tcpOptionWS ≠ tcpOptionMSS by decide), if_true,
      if_neg hshort, hbyte 1 (by simp [OptionField.size]),
      hbyte 2 (by simp [OptionField.size]), Option.bind_eq_bind]
    simp only [OptionField.bytes, List.getElem?_cons_succ, List.getElem?_cons_zero,
      Option.bind_some, ws_of_byte w hwf, ne_eq, not_true_eq_false, if_false]
    rfl
  | ts v e =>
    apply parseLoop_next hkind (by decide) (by decide)
    have hten : ¬pre.length + 10 > (pre ++ ((OptionField.ts v e).bytes ++ rest)).length := by
      simp [OptionField.bytes]
      omega
    have hlen : (pre ++ ((OptionField.ts v e).bytes ++ rest))[pre.length + 1]? = some 10 := by
      rw [hbyte 1 (by simp [OptionField.size])]
      rfl
    -- the echo is read only with the ACK flag
    cases isAck <;>
      simp only [synOptionsBranch, if_neg (show tcpOptionTS ≠ tcpOptionMSS by decide),
        if_neg (show tcpOptionTS ≠ tcpOptionWS by decide), if_true, if_neg hten, hlen,
        uint32At_tsVal, uint32At_tsEcr, Option.bind_eq_bind, Option.bind_some, ne_eq,
        not_true_eq_false, if_false, Bool.false_eq_true] <;> rfl
  | sackPermitted =>
    apply parseLoop_next hkind (by decide) (by decide)
    have hshort : ¬pre.length + 2 > (pre ++ (OptionField.sackPermitted.bytes ++ rest)).length := by
      simp [OptionField.bytes]
    have hlen : (pre ++ (OptionField.sackPermitted.bytes ++ rest))[pre.length + 1]? = some 2 := by
      rw [hbyte 1 (by simp [OptionField.size])]
      rfl
    simp only [synOptionsBranch, if_neg (show tcpOptionSACKPermitted ≠ tcpOptionMSS by decide),
      if_neg (show tcpOptionSACKPermitted ≠ tcpOptionWS by decide),
      if_neg (show tcpOptionSACKPermitted ≠ tcpOptionTS by decide), if_true, if_neg hshort, hlen,
      Option.bind_eq_bind, Option.bind_some, ne_eq, not_true_eq_false, if_false]
    rfl

end Fields

/-! ### Whole areas -/

section Run

variable {σ : Type} {branch : List UInt8 → σ → (i : ℕ) → UInt8 → Option (Branch σ i)}

/-- The fields of an area are read one after another, each by its step. -/
theorem parseLoop_fieldBytes (effect : σ → OptionField → σ)
    (hstep : ∀ f, f.WellFormed → ∀ (pre rest : List UInt8) (s : σ),
      parseLoop branch (pre ++ (f.bytes ++ rest)) s pre.length =
        parseLoop branch (pre ++ (f.bytes ++ rest)) (effect s f) (pre.length + f.size))
    (fs : List OptionField) (hwf : ∀ f ∈ fs, f.WellFormed) (pre rest : List UInt8) (s : σ) :
    parseLoop branch (pre ++ (fieldBytes fs ++ rest)) s pre.length =
      parseLoop branch (pre ++ (fieldBytes fs ++ rest)) (fs.foldl effect s)
        (pre.length + (fs.map OptionField.size).sum) := by
  induction fs generalizing pre s with
  | nil => rfl
  | cons f fs ih =>
    have hf := hwf f List.mem_cons_self
    have hsplit : pre ++ (fieldBytes (f :: fs) ++ rest) =
        pre ++ (f.bytes ++ (fieldBytes fs ++ rest)) := by
      simp [fieldBytes]
    have hsplit' : pre ++ (f.bytes ++ (fieldBytes fs ++ rest)) =
        (pre ++ f.bytes) ++ (fieldBytes fs ++ rest) := by
      simp
    have hlen : (pre ++ f.bytes).length = pre.length + f.size := by simp
    rw [hsplit, hstep f hf, hsplit', ← hlen, ih (fun g hg => hwf g (List.mem_cons_of_mem f hg)),
      hlen]
    simp only [List.foldl_cons, List.map_cons, List.sum_cons, Nat.add_assoc]

/-- An area of fields and `NOP`s after them is read to its end. -/
theorem parseLoop_area (effect : σ → OptionField → σ)
    (hstep : ∀ f, f.WellFormed → ∀ (pre rest : List UInt8) (s : σ),
      parseLoop branch (pre ++ (f.bytes ++ rest)) s pre.length =
        parseLoop branch (pre ++ (f.bytes ++ rest)) (effect s f) (pre.length + f.size))
    (fs : List OptionField) (hwf : ∀ f ∈ fs, f.WellFormed) (k : ℕ) (s : σ) :
    parseLoop branch (fieldBytes fs ++ List.replicate k tcpOptionNOP) s 0 =
      some (fs.foldl effect s) := by
  have hrun := parseLoop_fieldBytes effect hstep fs hwf [] (List.replicate k tcpOptionNOP) s
  have hnops : parseLoop branch (fieldBytes fs ++ List.replicate k tcpOptionNOP ++ [])
      (fs.foldl effect s) (fieldBytes fs).length = _ :=
    parseLoop_replicate_nop (fieldBytes fs) [] k (fs.foldl effect s)
  simp only [List.nil_append, List.length_nil, Nat.zero_add, List.append_nil] at hrun hnops
  rw [hrun, ← length_fieldBytes, hnops, parseLoop_of_le (by simp)]

end Run

theorem parseTCPOptions_area (fs : List OptionField) (hwf : ∀ f ∈ fs, f.WellFormed) (k : ℕ) :
    parseTCPOptions (fieldBytes fs ++ List.replicate k tcpOptionNOP) =
      some (fs.foldl OptionField.tcpEffect emptyTCPOptions) :=
  parseLoop_area _ (fun _ hf pre rest opts => parseTCPOptions_field pre rest hf opts) fs hwf k _

theorem parseSynOptions_area (fs : List OptionField) (hwf : ∀ f ∈ fs, f.WellFormed) (k : ℕ)
    (isAck : Bool) :
    parseSynOptions (fieldBytes fs ++ List.replicate k tcpOptionNOP) isAck =
      some (fs.foldl (OptionField.synEffect isAck) defaultSynOptions) :=
  parseLoop_area _ (fun _ hf pre rest opts => parseSynOptions_field pre rest isAck hf opts) fs hwf
    k _

theorem parseTCPOptions_isSome (b : List UInt8) : (parseTCPOptions b).isSome :=
  parseLoop_isSome (fun s i kind _ => tcpOptionsBranch_isSome b s i kind) _ _

theorem parseSynOptions_isSome (b : List UInt8) (isAck : Bool) : (parseSynOptions b isAck).isSome :=
  parseLoop_isSome (fun s i kind _ => synOptionsBranch_isSome isAck b s i kind) _ _

/-- The option parsers end on every input without a read past its end, and
read back every option area the encoders write: for each kind, its last
option, with the defaults for the kinds not there. -/
theorem parseOptions_buildOptions :
    (∀ (b : List UInt8) (isAck : Bool),
      (parseTCPOptions b).isSome ∧ (parseSynOptions b isAck).isSome) ∧
    ∀ fs : List OptionField, (∀ f ∈ fs, f.WellFormed) → ∀ options : List UInt8,
      (fs.map OptionField.size).sum + (4 - (fs.map OptionField.size).sum % 4) % 4 ≤
        options.length →
      ∃ area, buildOptions fs options = some area ∧
        parseTCPOptions area = some (fs.foldl OptionField.tcpEffect emptyTCPOptions) ∧
        ∀ isAck, parseSynOptions area isAck =
          some (fs.foldl (OptionField.synEffect isAck) defaultSynOptions) := by
  refine ⟨fun b isAck => ⟨parseTCPOptions_isSome b, parseSynOptions_isSome b isAck⟩, ?_⟩
  intro fs hwf options hroom
  refine ⟨_, buildOptions_of_room fs hwf options hroom, parseTCPOptions_area fs hwf _, ?_⟩
  intro isAck
  exact parseSynOptions_area fs hwf _ isAck

/-- The options of a SYN as `makeSynOptions` lays them out when SACK and
timestamps are both on, with a window scale. -/
def sampleSynFields : List OptionField := [.mss 1460, .sackPermitted, .ts 7 0, .nop, .ws 7]

theorem parseOptions_buildOptions_synOptions :
    (∀ f ∈ sampleSynFields, f.WellFormed) ∧
    (sampleSynFields.map OptionField.size).sum +
        (4 - (sampleSynFields.map OptionField.size).sum % 4) % 4 ≤
      (List.replicate 40 (0 : UInt8)).length ∧
    ∃ area, buildOptions sampleSynFields (List.replicate 40 0) = some area ∧
      parseTCPOptions area = some (sampleSynFields.foldl OptionField.tcpEffect emptyTCPOptions) ∧
      ∀ isAck, parseSynOptions area isAck =
        some (sampleSynFields.foldl (OptionField.synEffect isAck) defaultSynOptions) :=
  ⟨by decide, by decide, parseOptions_buildOptions.2 _ (by decide) _ (by decide)⟩

/-- Encodings the parsers do not read back. An MSS of `2^16` is written as
`0`, which `ParseSynOptions` takes for a malformed option: it stops there, with
the default MSS, and the window scale after it is lost. A window scale of `256`
is written as `0`. A SYN without ACK does not have its echo read. -/
theorem buildOptions_not_read_back :
    (buildOptions [.mss 65536, .ws 3] (List.replicate 8 0)).bind (parseSynOptions · false) =
      some defaultSynOptions ∧
    ((buildOptions [.ws 256] (List.replicate 4 0)).bind (parseSynOptions · false)).map
      TCPSynOptions.ws = some 0 ∧
    ((buildOptions [.ts 1 2, .nop, .nop] (List.replicate 12 0)).bind
      (parseSynOptions · false)).map TCPSynOptions.tsEcr = some 0 := by
  decide +kernel

end ContainerFS.Tcp
