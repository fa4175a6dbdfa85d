import ContainerFS.Lib.Iovec
import ContainerFS.P9.Codec

/-!
The framing of `p9/transport.go`. `send` writes a header `size[4] type[1]
tag[2]`, the fixed part `Encode` gives and the payload, with as many
`sendmsg` calls as the socket takes; `recv` reads the header, then the rest
into a data buffer (the pooled one when the fixed part fits it) and a payload
buffer, with as many `recvmsg` calls as the socket gives. The socket is a byte
stream that moves any positive number of bytes a call, with the descriptors a
`sendmsg` passes riding on its first byte. A frame that `send` writes is read
back by `recv` whatever the chunks, the pooled buffer and what follows it in
the stream, and a frame whose size is out of bounds is refused.
-/

namespace ContainerFS.P9

open Wire Iovec

/-! ### The socket -/

/-- A stream socket's queue: each byte with the descriptors passed with it. -/
abbrev Stream := List (UInt8 × List FD)

/-- The bytes of one `sendmsg` as they enter the stream: its control message
goes with the first. -/
def attach (fds : List FD) : List UInt8 → Stream
  | [] => []
  | b :: bs => (b, fds) :: bs.map fun b => (b, [])

/-- How much the socket moves: the `i`-th `sendmsg` or `recvmsg` of a call
moves at most `chunks i + 1` bytes. -/
abbrev Chunks := ℕ → ℕ

/-- The errors of `send` and `recv`. -/
inductive TransportError where
  /-- `io.EOF`: a read that got nothing. -/
  | eof
  /-- `ErrNoValidMessage`. -/
  | noValidMessage
  /-- `ErrMessageTooLarge`. -/
  | messageTooLarge (size msize : UInt32)
  /-- `ErrInvalidMsgType`, from `messageByType`. -/
  | invalidMsgType (t : MsgType)
  /-- `ErrSocket`: a socket issue, which callers treat apart. -/
  | socket (e : TransportError)
  deriving DecidableEq, Repr

def headerLength : UInt32 := 7

def maximumLength : UInt32 := 4 * 1024 * 1024

def noTag : Tag := 0xffff

/-- `SocketReader.ReadVec` into vectors of `want` bytes: the `recvmsg` takes at
most `size + 1` bytes from the front, and one that gets nothing is `io.EOF`. -/
def readVec (size want : ℕ) (s : Stream) : Except TransportError Stream :=
  let cur := min (size + 1) (min want s.length)
  if cur = 0 then .error .eof else .ok (s.take cur)

/-- `SocketWriter.WriteVec`: the number of the vectors' bytes the `sendmsg`
takes, at most `size + 1`. -/
def writeVec (size : ℕ) (vecs : List (List UInt8)) : ℕ := min (size + 1) vecs.flatten.length

/-! ### Sending -/

/-- The loop of `send`: a `sendmsg` a round, with the descriptors until part
of the frame is out, then the vectors it covered are consumed. `fuel` bounds
the rounds; each moves a byte at least while bytes are left. -/
def sendLoop (chunks : Chunks) (total : ℕ) :
    ℕ → ℕ → ℕ → List (List UInt8) → List FD → Stream
  | 0, _, _, _, _ => []
  | fuel + 1, i, n, vecs, fds =>
    if n < total then
      let cur := writeVec (chunks i) vecs
      let n' := n + cur
      -- after a short write the control message is not sent again
      let fds' := if 0 < n' ∧ n' < total then [] else fds
      attach fds (vecs.flatten.take cur) ++ sendLoop chunks total fuel (i + 1) n' (consume cur vecs) fds'
    else []

/-- `send`: what the stream receives. -/
def send (chunks : Chunks) (tag : Tag) (m : Message) : Stream :=
  let (data, payload) := m.encode
  let totalLength : UInt32 := headerLength + data.length.toUInt32 + payload.length.toUInt32
  let hdr := write32 totalLength ++ writeMsgType m.type ++ writeTag tag
  sendLoop chunks totalLength.toNat totalLength.toNat 0 0 ([hdr] ++ single data ++ single payload)
    m.filePayload.toList

/-! ### Receiving -/

/-- The header loop of `recv`: reads into `hdr[n:]` until the header is in.
`fuel` bounds the rounds. -/
def readHeader (chunks : Chunks) :
    ℕ → ℕ → List UInt8 → Stream → Stream × Except TransportError (ℕ × List UInt8)
  | 0, i, hdr, s => (s, .ok (i, hdr))
  | fuel + 1, i, hdr, s =>
    if hdr.length < headerLength.toNat then
      match readVec (chunks i) (headerLength.toNat - hdr.length) s with
      | .error e => (s, .error (.socket e))
      | .ok got => readHeader chunks fuel (i + 1) (hdr ++ got.map Prod.fst) (s.drop got.length)
    else (s, .ok (i, hdr))

/-- The header's size, type and tag. -/
def decodeHeader (hdr : List UInt8) : UInt32 × MsgType × Tag :=
  (do
    let size ← read32
    let t ← readMsgType
    let tag ← readTag
    pure (size, t, tag) : Reader _).run' ⟨hdr, false⟩

/-- `payloader.FixedSize`, on the kinds that carry a payload. -/
def MessageKind.fixedSize : MessageKind → Option UInt32
  | .rread => some 4
  | .twrite => some 16
  | .rreaddir => some 4
  | _ => none

/-- `messageByType` as a `lookupTagAndType`: the tag is ignored. -/
def lookupByType (_ : Tag) (t : MsgType) : Except TransportError MessageKind :=
  match messageByType t with
  | some k => .ok k
  | none => .error (.invalidMsgType t)

/-- The places `recv` reads the rest of a message into: the pooled data
buffer, a data buffer made for a part larger than it, and the payload. -/
inductive Cell where
  | pool (i : ℕ)
  | data (i : ℕ)
  | payload (i : ℕ)
  deriving DecidableEq

/-- A data buffer of `n` bytes: the first `n` of the pooled buffer when it has
them, else a new one. -/
def dataCells (n poolLength : ℕ) : List Cell :=
  if n > poolLength then (List.range n).map .data else (List.range n).map .pool

def payloadCells (n : ℕ) : List Cell := (List.range n).map .payload

/-- The memory before the rest is read: the pooled buffer holds what its last
user left, and new buffers hold zeros. -/
def initialMemory (pool : List UInt8) : Cell → UInt8
  | .pool i => pool.getD i 0
  | _ => 0

/-- The data and payload buffers of a message of kind `k` with `remaining`
bytes after the header; a fixed part longer than that is refused. -/
def bodyCells (k : MessageKind) (remaining : UInt32) (poolLength : ℕ) :
    Except TransportError (List Cell × List Cell) :=
  match k.fixedSize with
  | some fixedSize =>
    if fixedSize > remaining then .error .noValidMessage
    else .ok (if fixedSize ≠ 0 then dataCells fixedSize.toNat poolLength else [],
      payloadCells (remaining - fixedSize).toNat)
  | none => .ok (if remaining ≠ 0 then dataCells remaining.toNat poolLength else [], [])

/-- The loop that reads the rest of the message: each `recvmsg` stores what
came at the places of the vectors in order, and the vectors it covered are
consumed. `fuel` bounds the rounds. -/
def readBody (chunks : Chunks) (remaining : ℕ) :
    ℕ → ℕ → ℕ → List (List Cell) → (Cell → UInt8) → Stream →
      Stream × Except TransportError (Cell → UInt8)
  | 0, _, _, _, mem, s => (s, .ok mem)
  | fuel + 1, i, n, vecs, mem, s =>
    if n < remaining then
      match readVec (chunks i) vecs.flatten.length s with
      | .error e => (s, .error (.socket e))
      | .ok got =>
        readBody chunks remaining fuel (i + 1) (n + got.length) (consume got.length vecs)
          (scatter vecs.flatten (got.map Prod.fst) mem) (s.drop got.length)
    else (s, .ok mem)

/-- `Decode` on the data buffer with the payload set; then the first
descriptor that came, if any, as the file. -/
def decodeBody (k : MessageKind) (data payload : List UInt8) (fds : List FD) :
    Except TransportError Message :=
  let (m, b) := (k.decode payload).run ⟨data, false⟩
  if b.overflow then .error .noValidMessage
  else .ok (match fds with
    | fd :: _ => m.setFilePayload (some fd)
    | [] => m)

/-- `recv`: the stream left, the tag, and the message or the error. -/
def recv (msize : UInt32) (lookup : Tag → MsgType → Except TransportError MessageKind)
    (chunks : Chunks) (pool : List UInt8) (s : Stream) :
    Stream × Tag × Except TransportError Message :=
  -- the first read takes the control message with it
  match readVec (chunks 0) headerLength.toNat s with
  | .error e => (s, noTag, .error (.socket e))
  | .ok first =>
    match readHeader chunks headerLength.toNat 1 (first.map Prod.fst) (s.drop first.length) with
    | (s, .error e) => (s, noTag, .error e)
    | (s, .ok (i, hdr)) =>
      let (size, t, tag) := decodeHeader hdr
      if size < headerLength then (s, noTag, .error (.socket .noValidMessage))
      else if size > maximumLength ∨ size > msize then
        (s, noTag, .error (.socket (.messageTooLarge size msize)))
      else
        let remaining := size - headerLength
        match lookup tag t with
        -- the rest of the message is thrown away
        | .error e => (s.drop remaining.toNat, tag, .error e)
        | .ok k =>
          match bodyCells k remaining pool.length with
          | .error e => (s.drop remaining.toNat, noTag, .error e)
          | .ok (data, payload) =>
            let vecs := single data ++ single payload
            let (s, body) :=
              if vecs.isEmpty then (s, .ok (initialMemory pool))
              else readBody chunks remaining.toNat remaining.toNat i 0 vecs (initialMemory pool) s
            match body with
            | .error e => (s, noTag, .error e)
            | .ok mem =>
              match decodeBody k (data.map mem) (payload.map mem) (first.flatMap Prod.snd) with
              | .error e => (s, noTag, .error e)
              | .ok m => (s, tag, .ok m)

/-! ### The socket's bytes -/

@[simp]
theorem headerLength_toNat : headerLength.toNat = 7 := rfl

theorem attach_nil_left (l : List UInt8) : attach [] l = l.map fun b => (b, []) := by
  cases l <;> rfl

@[simp]
theorem map_fst_attach (fds : List FD) (l : List UInt8) : (attach fds l).map Prod.fst = l := by
  cases l <;> simp [attach, Function.comp_def]

@[simp]
theorem length_attach (fds : List FD) (l : List UInt8) : (attach fds l).length = l.length := by
  cases l <;> simp [attach]

/-- A `sendmsg` cut in two: the control message stays with the first part. -/
theorem attach_append (fds : List FD) {l₁ : List UInt8} (h : l₁ ≠ []) (l₂ : List UInt8) :
    attach fds (l₁ ++ l₂) = attach fds l₁ ++ attach [] l₂ := by
  obtain ⟨b, bs, rfl⟩ := List.exists_cons_of_ne_nil h
  simp only [List.cons_append, attach.eq_2, attach_nil_left, List.map_append]

/-- The first bytes of a `sendmsg` bring its control message, and only it. -/
theorem flatMap_snd_take_attach (fds : List FD) {l : List UInt8} {k : ℕ} (hk : 0 < k)
    (hl : k ≤ l.length) (rest : Stream) :
    ((attach fds l ++ rest).take k).flatMap Prod.snd = fds := by
  have hne : l ≠ [] := List.ne_nil_of_length_pos (by omega)
  obtain ⟨b, bs, rfl⟩ := List.exists_cons_of_ne_nil hne
  obtain ⟨k, rfl⟩ : ∃ k', k = k' + 1 := ⟨k - 1, by omega⟩
  have hk : k ≤ (bs.map fun b => (b, ([] : List FD))).length := by simpa using hl
  rw [attach, List.cons_append, List.take_succ_cons, List.take_append_of_le_length hk]
  simp
  -- the bytes after the first carry nothing
  intro a c hmem
  obtain ⟨y, -, hy⟩ := List.mem_map.mp (List.mem_of_mem_take hmem)
  simp only [Prod.mk.injEq] at hy
  exact hy.2.symm

/-- A `recvmsg` with room and bytes to take takes some. -/
theorem readVec_eq {size want : ℕ} {s : Stream} (hw : 0 < want) (hs : 0 < s.length) :
    readVec size want s = .ok (s.take (min (size + 1) (min want s.length))) := by
  have hcur : min (size + 1) (min want s.length) ≠ 0 := by omega
  dsimp only [readVec]
  rw [if_neg hcur]

/-- Two reads in a row take what one read of both takes. -/
theorem take_append_take_drop (s : List α) {cur w : ℕ} (h : cur ≤ w) :
    s.take cur ++ (s.drop cur).take (w - cur) = s.take w ∧
      (s.drop cur).drop (w - cur) = s.drop w := by
  obtain ⟨d, rfl⟩ : ∃ d, w = cur + d := ⟨w - cur, by omega⟩
  rw [Nat.add_sub_cancel_left, List.take_add, List.drop_drop]
  exact ⟨rfl, rfl⟩

/-! ### Sending writes the frame -/

/-- The write loop sends the vectors' bytes in order, the control message with
the first, whatever the socket takes a round. -/
theorem sendLoop_eq (chunks : Chunks) (total : ℕ) {fuel i n : ℕ} {vecs : List (List UInt8)}
    (fds : List FD) (hvecs : vecs.flatten.length = total - n) (hfuel : total - n ≤ fuel) :
    sendLoop chunks total fuel i n vecs fds = attach fds vecs.flatten := by
  induction fuel generalizing i n vecs fds with
  | zero =>
    rw [List.eq_nil_of_length_eq_zero (by omega : vecs.flatten.length = 0)]
    rfl
  | succ fuel ih =>
    by_cases hn : n < total
    · rw [sendLoop, if_pos hn]
      dsimp only
      -- the round takes `cur` bytes, at least one and at most what is left
      have hcur : 0 < writeVec (chunks i) vecs ∧ writeVec (chunks i) vecs ≤ vecs.flatten.length := by
        unfold writeVec
        omega
      generalize writeVec (chunks i) vecs = cur at hcur
      rw [ih _ (by rw [length_flatten_consume]; omega) (by omega), flatten_consume]
      have hrest : attach (if 0 < n + cur ∧ n + cur < total then [] else fds)
          (vecs.flatten.drop cur) = attach [] (vecs.flatten.drop cur) := by
        split_ifs with hshort
        · rfl
        · rw [List.drop_eq_nil_of_le (by omega)]
          rfl
      have hne : vecs.flatten ≠ [] := List.ne_nil_of_length_pos (by omega)
      have htake : vecs.flatten.take cur ≠ [] := by
        rw [Ne, List.take_eq_nil_iff, not_or]
        exact ⟨by omega, hne⟩
      rw [hrest, ← attach_append fds htake, List.take_append_drop]
    · rw [sendLoop, if_neg hn, List.eq_nil_of_length_eq_zero (by omega : vecs.flatten.length = 0)]
      rfl

/-- `send` writes the header, whose size field is the frame's length, the
fixed part and the payload, the file's descriptor with the first byte. -/
theorem send_eq (chunks : Chunks) (tag : Tag) (m : Message)
    (hlen : 7 + m.encode.1.length + m.encode.2.length < 2 ^ 32) :
    send chunks tag m = attach m.filePayload.toList
      (write32 (7 + m.encode.1.length + m.encode.2.length).toUInt32 ++ writeMsgType m.type ++
        writeTag tag ++ m.encode.1 ++ m.encode.2) := by
  rcases he : m.encode with ⟨data, payload⟩
  rw [he] at hlen
  dsimp only at hlen ⊢
  -- the size field, computed in 32 bits, does not wrap
  have htotal : (headerLength + data.length.toUInt32 + payload.length.toUInt32).toNat =
      7 + data.length + payload.length := by
    have hd : data.length.toUInt32.toNat = data.length := toNat_toUInt32 (by omega)
    have hp : payload.length.toUInt32.toNat = payload.length := toNat_toUInt32 (by omega)
    rw [UInt32.toNat_add, UInt32.toNat_add, hd, hp, headerLength_toNat,
      Nat.mod_eq_of_lt (by omega), Nat.mod_eq_of_lt (by omega)]
  have hsize : headerLength + data.length.toUInt32 + payload.length.toUInt32 =
      (7 + data.length + payload.length).toUInt32 :=
    UInt32.toNat_inj.mp (by rw [htotal, toNat_toUInt32 hlen])
  rw [send, he]
  dsimp only
  rw [sendLoop_eq _ _ _ (by simp [htotal, write32, writeMsgType, write8, writeTag, write16]; omega) (by omega)]
  simp [hsize]

/-! ### Receiving reads the frame back -/

@[simp]
theorem map_fst_attach_append (fds : List FD) (l : List UInt8) (rest : Stream) :
    (attach fds l ++ rest).map Prod.fst = l ++ rest.map Prod.fst := by
  simp

/-- The header loop reads what is missing of the header, whatever the socket
gives a round. -/
theorem readHeader_eq (chunks : Chunks) {fuel i : ℕ} {hdr : List UInt8} {s : Stream}
    (hfuel : 7 - hdr.length ≤ fuel) (hs : 7 - hdr.length ≤ s.length) :
    ∃ j, readHeader chunks fuel i hdr s =
      (s.drop (7 - hdr.length), .ok (j, hdr ++ (s.take (7 - hdr.length)).map Prod.fst)) := by
  induction fuel generalizing i hdr s with
  | zero =>
    refine ⟨i, ?_⟩
    rw [show 7 - hdr.length = 0 by omega]
    simp [readHeader]
  | succ fuel ih =>
    by_cases hlt : hdr.length < 7
    · rw [readHeader, if_pos (by simpa using hlt), headerLength_toNat,
        readVec_eq (by omega) (by omega)]
      dsimp only
      -- the round takes `cur` of the bytes still missing
      generalize hcur : min (chunks i + 1) (min (7 - hdr.length) s.length) = cur
      have hcur' : 0 < cur ∧ cur ≤ 7 - hdr.length ∧ cur ≤ s.length := by omega
      have hgot : (s.take cur).length = cur := by simp; omega
      obtain ⟨j, hj⟩ := @ih (i + 1) (hdr ++ (s.take cur).map Prod.fst) (s.drop cur)
        (by simp; omega) (by simp; omega)
      obtain ⟨htake, hdrop⟩ := take_append_take_drop s hcur'.2.1
      refine ⟨j, ?_⟩
      rw [hgot, hj]
      simp only [List.length_append, List.length_map, hgot, List.append_assoc, ← List.map_append]
      rw [show 7 - (hdr.length + cur) = 7 - hdr.length - cur by omega, htake, hdrop]
    · refine ⟨i, ?_⟩
      rw [readHeader, if_neg (by simpa using hlt), show 7 - hdr.length = 0 by omega]
      simp

/-- After the first read, of `c` bytes, the header loop completes the header. -/
theorem readHeader_first (chunks : Chunks) {s : Stream} (hs : 7 ≤ s.length) {c : ℕ}
    (hc : 0 < c) (hc7 : c ≤ 7) :
    ∃ j, readHeader chunks 7 1 ((s.take c).map Prod.fst) (s.drop c) =
      (s.drop 7, .ok (j, (s.take 7).map Prod.fst)) := by
  have hlen : ((s.take c).map Prod.fst).length = c := by simp; omega
  obtain ⟨j, hj⟩ := @readHeader_eq chunks 7 1 ((s.take c).map Prod.fst) (s.drop c)
    (by omega) (by rw [hlen, List.length_drop]; omega)
  obtain ⟨htake, hdrop⟩ := take_append_take_drop s hc7
  refine ⟨j, ?_⟩
  rw [hj, hlen, hdrop, ← List.map_append, htake]

/-- The body loop fills the places of the vectors with the bytes that come, in
order, whatever the socket gives a round. -/
theorem readBody_eq (chunks : Chunks) (remaining : ℕ) {fuel i n : ℕ} {vecs : List (List Cell)}
    {mem : Cell → UInt8} {s : Stream} (hvecs : vecs.flatten.length = remaining - n)
    (hfuel : remaining - n ≤ fuel) (hs : remaining - n ≤ s.length) :
    readBody chunks remaining fuel i n vecs mem s =
      (s.drop (remaining - n),
        .ok (scatter vecs.flatten ((s.take (remaining - n)).map Prod.fst) mem)) := by
  induction fuel generalizing i n vecs mem s with
  | zero =>
    rw [show remaining - n = 0 by omega]
    simp [readBody]
  | succ fuel ih =>
    by_cases hn : n < remaining
    · rw [readBody, if_pos hn, hvecs, readVec_eq (by omega) (by omega)]
      dsimp only
      -- the round takes `cur` of the bytes still missing
      generalize hcur : min (chunks i + 1) (min (remaining - n) s.length) = cur
      have hcur' : 0 < cur ∧ cur ≤ remaining - n ∧ cur ≤ s.length := by omega
      have hgot : (s.take cur).length = cur := by simp; omega
      rw [hgot, @ih (i + 1) (n + cur) (consume cur vecs) _ (s.drop cur)
        (by rw [length_flatten_consume]; omega) (by omega) (by simp; omega)]
      obtain ⟨htake, hdrop⟩ := take_append_take_drop s hcur'.2.1
      -- the bytes of this round and of the rounds after land in one go
      have hsc := scatter_append vecs.flatten ((s.take cur).map Prod.fst)
        (((s.drop cur).take (remaining - n - cur)).map Prod.fst) mem
      rw [List.length_map, hgot, ← List.map_append, htake] at hsc
      rw [flatten_consume, show remaining - (n + cur) = remaining - n - cur by omega, hdrop, ← hsc]
    · rw [readBody, if_neg hn, show remaining - n = 0 by omega]
      simp

/-- The header as `recv` decodes it. -/
theorem decodeHeader_eq (size : UInt32) (t : MsgType) (tag : Tag) :
    decodeHeader (write32 size ++ writeMsgType t ++ writeTag tag) = (size, t, tag) := by
  rw [← List.append_nil (writeTag tag)]
  simp only [decodeHeader, run'_eq, readMsgType, writeMsgType, readTag, writeTag,
    List.append_assoc, read32_bind, read8_bind, read16_bind]
  rfl

/-- The size field is the first four bytes, little-endian. -/
theorem decodeHeader_size {hdr : List UInt8} (h : 4 ≤ hdr.length) :
    (decodeHeader hdr).1 = uint32 (hdr.take 4) := by
  obtain ⟨hd, tl, rfl, hhd⟩ : ∃ hd tl, hdr = hd ++ tl ∧ hd.length = 4 :=
    ⟨hdr.take 4, hdr.drop 4, (List.take_append_drop _ _).symm, by simp; omega⟩
  rw [List.take_left' hhd, decodeHeader, run'_eq, read32, bind_assoc, ← hhd,
    run_bind_of_run (consume_append hd tl false)]
  rfl

/-! ### The buffers of the body -/

@[simp]
theorem length_dataCells (n poolLength : ℕ) : (dataCells n poolLength).length = n := by
  unfold dataCells
  split <;> simp

@[simp]
theorem length_payloadCells (n : ℕ) : (payloadCells n).length = n := by
  simp [payloadCells]

theorem dataCells_zero (poolLength : ℕ) : dataCells 0 poolLength = [] := by
  simp [dataCells]

theorem payloadCells_zero : payloadCells 0 = [] := rfl

/-- The data buffer and the payload buffer are apart. -/
theorem nodup_cells (n k poolLength : ℕ) : (dataCells n poolLength ++ payloadCells k).Nodup := by
  have hdata : (dataCells n poolLength).Nodup := by
    unfold dataCells
    split
    · exact List.nodup_range.map fun _ _ h => Cell.data.inj h
    · exact List.nodup_range.map fun _ _ h => Cell.pool.inj h
  have hpayload : (payloadCells k).Nodup :=
    List.nodup_range.map fun _ _ h => Cell.payload.inj h
  refine List.nodup_append.mpr ⟨hdata, hpayload, ?_⟩
  intro a ha b hb hab
  subst hab
  simp only [payloadCells, List.mem_map] at hb
  obtain ⟨_, _, rfl⟩ := hb
  unfold dataCells at ha
  split at ha <;> simp at ha

/-- The fixed part of a message with a payload is `FixedSize` long, and the
other messages have no payload. -/
theorem encode_fixedSize (m : Message) :
    match m.kind.fixedSize with
    | some f => m.encode.1.length = f.toNat
    | none => m.encode.2 = [] := by
  cases m
  case rread r =>
    simp [Message.kind, MessageKind.fixedSize, Message.encode, Rread.encode, write32]
  case twrite t =>
    simp [Message.kind, MessageKind.fixedSize, Message.encode, Twrite.encode, writeFID, write32,
      write64]
  case rreaddir r =>
    simp [Message.kind, MessageKind.fixedSize, Message.encode, Rreaddir.encode_eq, write32]
  all_goals rfl

/-- The buffers `recv` gives the body of an encoded message: the fixed part in
the data buffer and the payload in the payload buffer. -/
theorem bodyCells_encode (m : Message) (poolLength : ℕ)
    (hlen : m.encode.1.length + m.encode.2.length < 2 ^ 32) :
    bodyCells m.kind (m.encode.1.length + m.encode.2.length).toUInt32 poolLength =
      .ok (dataCells m.encode.1.length poolLength, payloadCells m.encode.2.length) := by
  have hrem := toNat_toUInt32 hlen
  have hfix := encode_fixedSize m
  unfold bodyCells
  rcases hk : m.kind.fixedSize with _ | f
  · -- no payload: the whole rest is the data buffer
    rw [hk] at hfix
    dsimp only at hfix ⊢
    rw [hfix, List.length_nil, Nat.add_zero] at hrem ⊢
    split_ifs with h0
    · rw [hrem, payloadCells_zero]
    · have hzero : m.encode.1.length = 0 := by rw [← hrem, not_not.mp h0]; rfl
      rw [hzero, dataCells_zero, payloadCells_zero]
  · -- a payload: the fixed part, then the rest
    rw [hk] at hfix
    dsimp only at hfix ⊢
    have hle : f ≤ (m.encode.1.length + m.encode.2.length).toUInt32 := by
      rw [UInt32.le_iff_toNat_le, hrem]
      omega
    have hfits : ¬f > (m.encode.1.length + m.encode.2.length).toUInt32 := by
      rw [gt_iff_lt, UInt32.lt_iff_toNat_lt, hrem]
      omega
    rw [if_neg hfits, UInt32.toNat_sub_of_le _ _ hle, hrem,
      show m.encode.1.length + m.encode.2.length - f.toNat = m.encode.2.length by omega]
    split_ifs with h0
    · rw [hfix]
    · rw [show m.encode.1.length = 0 by rw [hfix, not_not.mp h0]; rfl, dataCells_zero]

/-- Reading the rest into the data and payload buffers, the loop skipped when
there is nothing to read. -/
theorem readRest_eq (chunks : Chunks) (i : ℕ) (dc pc : List Cell) (mem : Cell → UInt8)
    {s : Stream} (hs : dc.length + pc.length ≤ s.length) :
    (if (single dc ++ single pc).isEmpty then (s, .ok mem)
      else readBody chunks (dc.length + pc.length) (dc.length + pc.length) i 0
        (single dc ++ single pc) mem s) =
      (s.drop (dc.length + pc.length),
        .ok (scatter (dc ++ pc) ((s.take (dc.length + pc.length)).map Prod.fst) mem)) := by
  have hflat : (single dc ++ single pc).flatten = dc ++ pc := by simp
  split_ifs with hempty
  · -- nothing to read: both buffers are empty
    have hnil : dc ++ pc = [] := by
      rw [← hflat, List.isEmpty_iff.mp hempty, List.flatten_nil]
    obtain ⟨rfl, rfl⟩ := List.append_eq_nil_iff.mp hnil
    simp
  · rw [readBody_eq chunks _ (by simp) (by omega) (by omega), hflat, Nat.sub_zero]

/-- The decoder on the buffers of an encoded message, with the descriptor that
came with it, gives the message as the codec keeps it. -/
theorem decodeBody_encode (m : Message) (hm : m.wellSized = true) :
    decodeBody m.kind m.encode.1 m.encode.2 m.filePayload.toList = .ok m.normalize := by
  have hdec := decode_encode m hm [] false
  rw [List.append_nil] at hdec
  rw [decodeBody, hdec]
  dsimp only
  rw [if_neg Bool.false_ne_true]
  -- the file comes back as the descriptor that was sent
  rcases hf : m.filePayload with _ | fd
  · dsimp only [Option.toList]
    rw [← hf, ← Message.filePayload_normalize, Message.setFilePayload_filePayload]
  · dsimp only [Option.toList]
    rw [Message.setFilePayload_setFilePayload, ← hf, ← Message.filePayload_normalize,
      Message.setFilePayload_filePayload]

/-! ### The frame read back, and frames refused -/

/-- `recv` reads a frame of `m` with `tag`, laid out as `send` writes it, back
into the message as the codec keeps it, whatever the socket gives a round and
whatever the pooled buffer holds, and leaves what follows in the stream. -/
theorem recv_frame (msize : UInt32) (chunks : Chunks) (pool : List UInt8) (tag : Tag)
    (m : Message) (hm : m.wellSized = true)
    (hfit : 7 + m.encode.1.length + m.encode.2.length ≤ min msize.toNat maximumLength.toNat)
    (rest : Stream) :
    recv msize lookupByType chunks pool (attach m.filePayload.toList
      (write32 (7 + m.encode.1.length + m.encode.2.length).toUInt32 ++ writeMsgType m.type ++
        writeTag tag ++ m.encode.1 ++ m.encode.2) ++ rest) = (rest, tag, .ok m.normalize) := by
  have hmax : maximumLength.toNat = 4194304 := rfl
  have hfit' := le_min_iff.mp hfit
  generalize hsize : (7 + m.encode.1.length + m.encode.2.length).toUInt32 = size
  have hsz : size.toNat = 7 + m.encode.1.length + m.encode.2.length := by
    rw [← hsize, toNat_toUInt32 (by omega)]
  have hhdr : (write32 size ++ writeMsgType m.type ++ writeTag tag).length = 7 := by
    simp [write32, writeMsgType, write8, writeTag, write16]
  generalize hF : write32 size ++ writeMsgType m.type ++ writeTag tag ++ m.encode.1 ++
    m.encode.2 = F
  have hlenF : F.length = 7 + m.encode.1.length + m.encode.2.length := by
    rw [← hF, List.length_append, List.length_append, hhdr]
  have hF' : F = (write32 size ++ writeMsgType m.type ++ writeTag tag) ++
      (m.encode.1 ++ m.encode.2) := by
    rw [← hF, List.append_assoc]
  have hslen : (attach m.filePayload.toList F ++ rest).length = F.length + rest.length := by simp
  -- the first read takes `c` bytes of the header, and the descriptor with them
  rw [recv, headerLength_toNat, readVec_eq (by omega) (by omega)]
  dsimp only
  generalize hc : min (chunks 0 + 1) (min 7 (attach m.filePayload.toList F ++ rest).length) = c
  have hc' : 0 < c ∧ c ≤ 7 := by omega
  have hfirst : ((attach m.filePayload.toList F ++ rest).take c).length = c := by simp; omega
  obtain ⟨j, hj⟩ := readHeader_first chunks (s := attach m.filePayload.toList F ++ rest)
    (by omega) hc'.1 hc'.2
  rw [hfirst, hj]
  dsimp only
  -- the header
  have hhead : ((attach m.filePayload.toList F ++ rest).take 7).map Prod.fst =
      write32 size ++ writeMsgType m.type ++ writeTag tag := by
    rw [List.map_take, map_fst_attach_append, hF', List.append_assoc, List.take_left' hhdr]
  rw [hhead, decodeHeader_eq]
  dsimp only
  have hsmall : ¬size < headerLength := by
    rw [UInt32.lt_iff_toNat_lt, hsz, headerLength_toNat]
    omega
  have hlarge : ¬(size > maximumLength ∨ size > msize) := by
    rw [gt_iff_lt, gt_iff_lt, UInt32.lt_iff_toNat_lt, UInt32.lt_iff_toNat_lt, hsz, hmax]
    omega
  have hlook : lookupByType tag m.type = .ok m.kind := by
    simp [lookupByType, Message.type, messageByType_type]
  have hrem : size - headerLength = (m.encode.1.length + m.encode.2.length).toUInt32 := by
    apply UInt32.toNat_inj.mp
    rw [UInt32.toNat_sub_of_le _ _ (UInt32.le_iff_toNat_le.mpr (by rw [hsz, headerLength_toNat]; omega)), hsz,
      headerLength_toNat, toNat_toUInt32 (by omega)]
    omega
  rw [if_neg hsmall, if_neg hlarge, hlook]
  dsimp only
  rw [hrem, bodyCells_encode m pool.length (by omega), toNat_toUInt32 (by omega)]
  dsimp only
  -- the body: the fixed part and the payload, then what follows
  have hread := readRest_eq chunks j (dataCells m.encode.1.length pool.length)
    (payloadCells m.encode.2.length) (initialMemory pool)
    (s := (attach m.filePayload.toList F ++ rest).drop 7) (by simp; omega)
  simp only [length_dataCells, length_payloadCells] at hread
  have hbody : (((attach m.filePayload.toList F ++ rest).drop 7).take
      (m.encode.1.length + m.encode.2.length)).map Prod.fst = m.encode.1 ++ m.encode.2 := by
    have hlen : (m.encode.1 ++ m.encode.2).length = m.encode.1.length + m.encode.2.length :=
      List.length_append ..
    rw [List.map_take, List.map_drop, map_fst_attach_append, hF', List.append_assoc,
      List.drop_left' hhdr, List.take_left' hlen]
  have hleft : ((attach m.filePayload.toList F ++ rest).drop 7).drop
      (m.encode.1.length + m.encode.2.length) = rest := by
    rw [List.drop_drop, List.drop_left' (by rw [length_attach, hlenF]; omega)]
  rw [hread, hbody, hleft]
  dsimp only
  -- each buffer holds its part
  have hmap : (dataCells m.encode.1.length pool.length ++ payloadCells m.encode.2.length).map
      (scatter (dataCells m.encode.1.length pool.length ++ payloadCells m.encode.2.length)
        (m.encode.1 ++ m.encode.2) (initialMemory pool)) = m.encode.1 ++ m.encode.2 :=
    map_scatter (nodup_cells _ _ _) (by simp) _
  rw [List.map_append] at hmap
  obtain ⟨hdata, hpayload⟩ := List.append_inj hmap (by simp)
  rw [hdata, hpayload, flatMap_snd_take_attach _ hc'.1 (by omega), decodeBody_encode m hm]

/-- `recv` refuses a frame whose size field is below the header's length or
above either bound, once it has the header and before it reads more. -/
theorem recv_rejects (msize : UInt32) (lookup : Tag → MsgType → Except TransportError MessageKind)
    (chunks : Chunks) (pool : List UInt8) {s : Stream} (hs : 7 ≤ s.length)
    (hsize : uint32 ((s.take 4).map Prod.fst) < headerLength ∨
      maximumLength < uint32 ((s.take 4).map Prod.fst) ∨ msize < uint32 ((s.take 4).map Prod.fst)) :
    ∃ e, recv msize lookup chunks pool s = (s.drop 7, noTag, .error (.socket e)) := by
  rw [recv, headerLength_toNat, readVec_eq (by omega) (by omega)]
  dsimp only
  generalize hc : min (chunks 0 + 1) (min 7 s.length) = c
  have hfirst : (s.take c).length = c := by simp; omega
  obtain ⟨j, hj⟩ := readHeader_first chunks hs (c := c) (by omega) (by omega)
  rw [hfirst, hj]
  dsimp only
  -- the size field as `recv` reads it
  have hfield : (decodeHeader ((s.take 7).map Prod.fst)).1 = uint32 ((s.take 4).map Prod.fst) := by
    rw [decodeHeader_size (by simp; omega), ← List.map_take, List.take_take]
    rfl
  rcases hdec : decodeHeader ((s.take 7).map Prod.fst) with ⟨size, t, tag⟩
  rw [hdec] at hfield
  dsimp only at hfield ⊢
  rw [← hfield] at hsize
  by_cases hsmall : size < headerLength
  · exact ⟨_, by rw [if_pos hsmall]⟩
  · have hlarge : size > maximumLength ∨ size > msize := by
      rcases hsize with h | h | h
      · exact absurd h hsmall
      · exact Or.inl h
      · exact Or.inr h
    exact ⟨_, by rw [if_neg hsmall, if_pos hlarge]⟩

/-- The framing. A frame that `send` writes holds the header, whose size field
is the frame's length, the fixed part and the payload, whatever the socket
takes a round. `recv`, with `messageByType` as the lookup, reads it back into
the message as the codec keeps it, with the same tag, whatever the socket
gives a round, whatever the pooled buffer holds and whatever follows, and
takes the frame and no more. A frame whose size field is below the header's
length or above `msize` or `maximumLength` is refused. -/
theorem recv_send (tag : Tag) (m : Message) (hm : m.wellSized = true) (msize : UInt32)
    (hfit : 7 + m.encode.1.length + m.encode.2.length ≤ min msize.toNat maximumLength.toNat)
    (wchunks rchunks : Chunks) (pool : List UInt8) (rest : Stream) :
    (send wchunks tag m).map Prod.fst =
        write32 (7 + m.encode.1.length + m.encode.2.length).toUInt32 ++ writeMsgType m.type ++
          writeTag tag ++ m.encode.1 ++ m.encode.2 ∧
      recv msize lookupByType rchunks pool (send wchunks tag m ++ rest) =
        (rest, tag, .ok m.normalize) ∧
      ∀ (lookup : Tag → MsgType → Except TransportError MessageKind) (s : Stream),
        7 ≤ s.length →
        (uint32 ((s.take 4).map Prod.fst) < headerLength ∨
          maximumLength < uint32 ((s.take 4).map Prod.fst) ∨
          msize < uint32 ((s.take 4).map Prod.fst)) →
        ∃ e, recv msize lookup rchunks pool s = (s.drop 7, noTag, .error (.socket e)) := by
  have hmax : maximumLength.toNat = 4194304 := rfl
  have hsend := send_eq wchunks tag m (by omega)
  refine ⟨?_, ?_, fun lookup s hs hsize => recv_rejects msize lookup rchunks pool hs hsize⟩
  · rw [hsend, map_fst_attach]
  · rw [hsend]
    exact recv_frame msize rchunks pool tag m hm hfit rest

/-- A write of three bytes. -/
def writeSample : Message := .twrite ⟨1, 0, [1, 2, 3]⟩

theorem recv_send_writeSample :
    writeSample.wellSized = true ∧
      7 + writeSample.encode.1.length + writeSample.encode.2.length ≤
        min (8192 : UInt32).toNat maximumLength.toNat ∧
      ((send (fun _ => 2) 1 writeSample).map Prod.fst =
          write32 (7 + writeSample.encode.1.length + writeSample.encode.2.length).toUInt32 ++
            writeMsgType writeSample.type ++ writeTag 1 ++ writeSample.encode.1 ++
            writeSample.encode.2 ∧
        recv 8192 lookupByType (fun _ => 0) [] (send (fun _ => 2) 1 writeSample ++ []) =
          ([], 1, .ok writeSample.normalize) ∧
        ∀ (lookup : Tag → MsgType → Except TransportError MessageKind) (s : Stream),
          7 ≤ s.length →
          (uint32 ((s.take 4).map Prod.fst) < headerLength ∨
            maximumLength < uint32 ((s.take 4).map Prod.fst) ∨
            8192 < uint32 ((s.take 4).map Prod.fst)) →
          ∃ e, recv 8192 lookup (fun _ => 0) [] s = (s.drop 7, noTag, .error (.socket e))) :=
  ⟨rfl, by decide, recv_send 1 writeSample rfl 8192 (by decide) (fun _ => 2) (fun _ => 0) [] []⟩

end ContainerFS.P9
