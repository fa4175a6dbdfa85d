import ContainerFS.Net.Fragmentation

/-!
The IPv4 endpoint's receive path (`network/ipv4/ipv4.go`, `header/ipv4.go`,
`network/hash/hash.go`): the header read from the first view, `IsValid`, and
`HandlePacket`, which hands a fragment to the endpoint's `Fragmentation` with
its last offset computed in 16-bit arithmetic.

A header is the bytes of the first view. The code reads its fields only past
the check that there are 20 of them, so a read past the end, which would
panic, never happens; here it reads 0.
-/

namespace ContainerFS.Net

open Buffer

/-- `header.IPv4`: the bytes of a header. -/
structure IPv4 where
  bytes : List UInt8
  deriving DecidableEq, Repr

def ipv4MinimumSize : ℕ := 20

def icmpv4ProtocolNumber : ℕ := 1

namespace IPv4

/-- The byte at `i`. -/
def byte (h : IPv4) (i : ℕ) : ℕ := (h.bytes.getD i 0).toNat

/-- `binary.BigEndian.Uint16(b[i:])`. -/
def uint16At (h : IPv4) (i : ℕ) : ℕ := h.byte i * 2 ^ 8 + h.byte (i + 1)

/-- `HeaderLength`: the IHL field times four. -/
def headerLength (h : IPv4) : ℕ := h.byte 0 % 16 * 4

def totalLength (h : IPv4) : ℕ := h.uint16At 2

def id (h : IPv4) : ℕ := h.uint16At 4

def protocol (h : IPv4) : ℕ := h.byte 9

/-- `Flags`: the top three bits of the flags and fragment offset field. -/
def flags (h : IPv4) : ℕ := h.uint16At 6 / 2 ^ 13

/-- `FragmentOffset`: the field shifted left by three in 16 bits, which drops
the flags. -/
def fragmentOffset (h : IPv4) : ℕ := h.uint16At 6 * 2 ^ 3 % 2 ^ 16

/-- `IsValid`: a full minimal header whose total length lies between its
header length and the packet's size. -/
def isValid (h : IPv4) (pktSize : ℕ) : Bool :=
  if h.bytes.length < ipv4MinimumSize then false
  else !(decide (h.headerLength > h.totalLength) || decide (h.totalLength > pktSize))

end IPv4

def rol32 (v shift : UInt32) : UInt32 := (v <<< shift) ||| (v >>> ((0 - shift) &&& 31))

/-- `Hash3Words`, the Jenkins hash of three words. -/
def hash3Words (a b c initval : UInt32) : UInt32 :=
  let initval := initval + ((0xdeadbeef : UInt32) + ((3 : UInt32) <<< 2))
  let a := a + initval
  let b := b + initval
  let c := c + initval
  let c := (c ^^^ b) - rol32 b 14
  let a := (a ^^^ c) - rol32 c 11
  let b := (b ^^^ a) - rol32 a 25
  let c := (c ^^^ b) - rol32 b 16
  let a := (a ^^^ c) - rol32 c 4
  let b := (b ^^^ a) - rol32 a 14
  (c ^^^ b) - rol32 b 24

/-- The address at `i` as a little-endian word. -/
def IPv4.addressWord (h : IPv4) (i : ℕ) : UInt32 :=
  (h.byte i).toUInt32 ||| (h.byte (i + 1)).toUInt32 <<< 8 |||
    (h.byte (i + 2)).toUInt32 <<< 16 ||| (h.byte (i + 3)).toUInt32 <<< 24

/-- `IPv4FragmentHash`, with the random `hashIV` the package draws at start. -/
def ipv4FragmentHash (hashIV : UInt32) (h : IPv4) : ℕ :=
  (hash3Words (h.id.toUInt32 <<< 16 ||| h.protocol.toUInt32) (h.addressWord 12)
    (h.addressWord 16) hashIV).toNat

/-- Where `HandlePacket` hands a packet on. -/
inductive Delivery where
  | icmp (payload : VectorisedView UInt8)
  | transport (protocol : ℕ) (payload : VectorisedView UInt8)
  deriving DecidableEq, Repr

/-- The endpoint's `Fragmentation`, from `NewEndpoint`. -/
def endpointFragmentation : Fragmentation UInt8 :=
  newFragmentation highFragThreshold lowFragThreshold defaultReassembleTimeout

/-- `endpoint.HandlePacket` at time `now`: an invalid packet is dropped, a
fragment goes to `Process` with `last` as `offset + uint16(size) - 1` in
16 bits, and a whole packet is delivered. -/
def handlePacket (hashIV : UInt32) (f : Fragmentation UInt8) (now : ℕ)
    (vv : VectorisedView UInt8) : Except Panic (Fragmentation UInt8 × Option Delivery) :=
  let h : IPv4 := ⟨vv.first⟩
  if !h.isValid vv.size then .ok (f, none)
  else
    let hlen := h.headerLength
    let tlen := h.totalLength
    let vv := (vv.trimFront hlen).capLength (tlen - hlen)
    let more := h.flags % 2 = 1
    let deliver (f : Fragmentation UInt8) (vv : VectorisedView UInt8) :
        Except Panic (Fragmentation UInt8 × Option Delivery) :=
      if h.protocol = icmpv4ProtocolNumber then .ok (f, some (.icmp vv))
      else .ok (f, some (.transport h.protocol vv))
    if more || h.fragmentOffset ≠ 0 then
      let last := (h.fragmentOffset + vv.size % 2 ^ 16 + (2 ^ 16 - 1)) % 2 ^ 16
      match f.process (ipv4FragmentHash hashIV h) h.fragmentOffset last more vv now with
      | .error e => .error e
      | .ok (f, vv, ready) => if !ready then .ok (f, none) else deliver f vv
    else deliver f vv

/-- The fragment path of `HandlePacket`: a valid packet with the more
fragments flag or an offset goes to `Process` with its payload, the last
offset in 16 bits, and is delivered once `Process` returns the whole packet. -/
theorem handlePacket_fragment {hashIV : UInt32} {f : Fragmentation UInt8} {now : ℕ}
    {vv : VectorisedView UInt8} {h : IPv4} {payload : VectorisedView UInt8} {offset last : ℕ}
    {more : Bool} (hh : (⟨vv.first⟩ : IPv4) = h)
    (hp : (vv.trimFront h.headerLength).capLength (h.totalLength - h.headerLength) = payload)
    (hvalid : h.isValid vv.size = true) (hoff : h.fragmentOffset = offset)
    (hmore : decide (h.flags % 2 = 1) = more) (hfrag : more = true ∨ offset ≠ 0)
    (hlast : (offset + payload.size % 2 ^ 16 + (2 ^ 16 - 1)) % 2 ^ 16 = last) :
    handlePacket hashIV f now vv =
      match f.process (ipv4FragmentHash hashIV h) offset last more payload now with
      | .error e => .error e
      | .ok (f, vv, ready) =>
        if !ready then .ok (f, none)
        else if h.protocol = icmpv4ProtocolNumber then .ok (f, some (.icmp vv))
        else .ok (f, some (.transport h.protocol vv)) := by
  subst hh hp hoff hmore hlast
  simp only [handlePacket, hvalid, Bool.not_true, Bool.false_eq_true, ↓reduceIte]
  rw [if_pos (by simpa using hfrag)]

/-- An empty fragment at offset 8 that ends its packet: a 20-byte header with
total length 20, the fragment offset field 1 and no flags. -/
def lastEmptyFragment : VectorisedView UInt8 :=
  ⟨[[0x45, 0, 0, 20, 0, 1, 0, 1, 64, 17, 0, 0, 10, 0, 0, 1, 10, 0, 0, 2]], 20⟩

/-- An empty fragment at offset 0 of the same packet, with more to follow: the
same header with the flag `MF` and no offset. -/
def firstEmptyFragment : VectorisedView UInt8 :=
  ⟨[[0x45, 0, 0, 20, 0, 1, 0x20, 0, 64, 17, 0, 0, 10, 0, 0, 1, 10, 0, 0, 2]], 20⟩

/-- The endpoint's `Fragmentation` after the empty last fragment: its
reassembler for the fragment id `k` has deleted the first hole, kept `0..7`,
and stored the fragment at 8. -/
theorem process_lastEmptyFragment (k now : ℕ) :
    endpointFragmentation.process k 8 7 false .empty now =
      .ok ({ endpointFragmentation with
        reassemblers := [(k, 0)]
        rList := [0]
        store := [⟨k, 0, [⟨0, maxUint16, true⟩, ⟨0, 7, false⟩], 1, [⟨8, .empty⟩], false, now⟩] },
        .empty, false) :=
  rfl

/-- The empty fragment at 0 then has `last = 0 + 0 - 1 = 65535`: it deletes
the hole `0..7`, every hole is deleted, and `reassemble` finds the stored
fragments 0 and 8 with nothing between them. -/
theorem process_firstEmptyFragment (k now : ℕ) :
    ({ endpointFragmentation with
        reassemblers := [(k, 0)]
        rList := [0]
        store := [⟨k, 0, [⟨0, maxUint16, true⟩, ⟨0, 7, false⟩], 1, [⟨8, .empty⟩], false, now⟩] } :
        Fragmentation UInt8).process k 0 (2 ^ 16 - 1) true .empty now =
      .error (.reassembleFailed (.hole 0 8)) := by
  -- the lookup finds the reassembler, which is not too old
  simp [Fragmentation.process, Fragmentation.lookup, Reassembler.tooOld]
  rfl

/-- Two valid empty fragments of one packet, the last one first, make
`HandlePacket` panic, whatever the hash's random seed and the time. -/
theorem handlePacket_empty_fragments_panic (hashIV : UInt32) (now : ℕ) :
    (IPv4.isValid ⟨lastEmptyFragment.first⟩ lastEmptyFragment.size = true ∧
      IPv4.isValid ⟨firstEmptyFragment.first⟩ firstEmptyFragment.size = true) ∧
    ∃ f, handlePacket hashIV endpointFragmentation now lastEmptyFragment = .ok (f, none) ∧
      handlePacket hashIV f now firstEmptyFragment = .error (.reassembleFailed (.hole 0 8)) := by
  -- both headers give the same fragment id
  have hid : ipv4FragmentHash hashIV ⟨firstEmptyFragment.first⟩ =
      ipv4FragmentHash hashIV ⟨lastEmptyFragment.first⟩ := rfl
  refine ⟨⟨by decide, by decide⟩, ?f, ?first, ?second⟩
  case first =>
    rw [handlePacket_fragment rfl (by decide : _ = VectorisedView.empty) (by decide)
      (by decide : _ = 8) (by decide : _ = false) (.inr (by decide)) (by decide : _ = 7),
      process_lastEmptyFragment]
    rfl
  case second =>
    rw [handlePacket_fragment rfl (by decide : _ = VectorisedView.empty) (by decide)
      (by decide : _ = 0) (by decide : _ = true) (.inl rfl) (by decide : _ = 2 ^ 16 - 1), hid,
      process_firstEmptyFragment]

end ContainerFS.Net
