import ContainerFS.Tcp.Options
import ContainerFS.Tcp.Receiver

/-!
SYN cookies of a listening TCP endpoint (`tcpip/transport/tcp/accept.go`). Past the SYN-RCVD
threshold a listener answers a SYN with a SYN-ACK whose sequence number is a cookie, and keeps
no state; the ACK that comes back carries the cookie, from which the listener recovers the
encoded MSS index and accepts the connection.

A cookie is `hash(id, 0, 0) + seq + ts << 24 + ((hash(id, ts, 1) + data) & 0xffffff)` in
`uint32` arithmetic, with `ts` an 8-bit timestamp of 64-second ticks. The hash is a SHA-1 of
the endpoint's addresses, the timestamp and a random nonce; here it is an arbitrary function,
so every result below holds whatever it computes.
-/

namespace ContainerFS.Tcp

/-- `tsMask`, `(1 << tsLen) - 1` with `tsLen = 8`. -/
def tsMask : UInt32 := 255

def tsOffset : UInt32 := 24

/-- `hashMask`, `(1 << tsOffset) - 1`. -/
def hashMask : UInt32 := 0xffffff

def maxTSDiff : UInt32 := 2

def mssTable : List UInt16 := [536, 1300, 1440, 1460]

/-- The loop of `encodeMSS`, at index `i` and down to `1`. -/
def encodeMSSFrom (mss : UInt16) : ℕ → UInt32
  | 0 => 0
  | i + 1 => if mss ≥ mssTable.getD (i + 1) 0 then UInt32.ofNat (i + 1) else encodeMSSFrom mss i

def encodeMSS (mss : UInt16) : UInt32 := encodeMSSFrom mss (mssTable.length - 1)

/-- `timeStamp`: `uint32(time.Now().Unix() >> 6) & tsMask`, at the Unix time `unix`. -/
def timeStamp (unix : Int64) : UInt32 := (unix >>> 6).toUInt64.toUInt32 &&& tsMask

/-- The part of `listenContext` the cookies read: `cookieHash`, an arbitrary function of the
endpoint's identity, a timestamp and a nonce index. -/
structure ListenContext (ι : Type) where
  cookieHash : ι → UInt32 → ℕ → UInt32

variable {ι : Type}

/-- `listenContext.createCookie`, at the Unix time `now`. -/
def createCookie (l : ListenContext ι) (now : Int64) (id : ι) (seq data : UInt32) : UInt32 :=
  let ts := timeStamp now
  let v := l.cookieHash id 0 0 + seq + (ts <<< tsOffset)
  v + ((l.cookieHash id ts 1 + data) &&& hashMask)

/-- `listenContext.isCookieValid`, at the Unix time `now`. -/
def isCookieValid (l : ListenContext ι) (now : Int64) (id : ι) (cookie seq : UInt32) :
    UInt32 × Bool :=
  let ts := timeStamp now
  let v := cookie - l.cookieHash id 0 0 - seq
  let cookieTS := v >>> tsOffset
  if (ts - cookieTS) &&& tsMask > maxTSDiff then (0, false)
  else ((v - l.cookieHash id cookieTS 1) &&& hashMask, true)

def tcpFlagAck : UInt8 := 0x10

/-- The fields of a segment that `handleListenSegment` reads. -/
structure ListenSegment (ι : Type) where
  id : ι
  flags : UInt8
  sequenceNumber : UInt32
  ackNumber : UInt32
  options : List UInt8

/-- What `handleListenSegment` does with a segment. -/
inductive ListenAction where
  /-- `go e.handleSynSegment(ctx, s, &opts)`: a full handshake. -/
  | handshake (opts : TCPSynOptions)
  /-- `sendSynTCP` of a SYN-ACK with the cookie, with the SYN's timestamp option echoed. -/
  | sendSynAck (seq ack : UInt32) (ts : Bool) (tsEcr : UInt32)
  /-- `createConnectedEndpoint(s, iss, irs, {MSS: mss, WS: -1})`. -/
  | accept (iss irs : UInt32) (mss : UInt16)
  /-- The segment is dropped. -/
  | drop
  deriving DecidableEq, Repr

/-- `endpoint.handleListenSegment` at the Unix time `now`, where `incSynRcvd` is the result of
`incSynRcvdCount()`; `none` where parsing the SYN's options panics. -/
def handleListenSegment (l : ListenContext ι) (now : Int64) (incSynRcvd : Bool)
    (s : ListenSegment ι) : Option ListenAction :=
  if s.flags = tcpFlagSyn then
    (parseSynOptions s.options false).map fun opts =>
      if incSynRcvd then .handshake opts
      else
        .sendSynAck (createCookie l now s.id s.sequenceNumber (encodeMSS opts.mss))
          (s.sequenceNumber + 1) opts.ts opts.tsVal
  else if s.flags = tcpFlagAck then
    let r := isCookieValid l now s.id (s.ackNumber - 1) (s.sequenceNumber - 1)
    if r.2 ∧ r.1.toNat < mssTable.length then
      some (.accept (s.ackNumber - 1) (s.sequenceNumber - 1) (mssTable.getD r.1.toNat 0))
    else some .drop
  else some .drop

/-- The age of a cookie made at `created` and checked at `now`, in timestamp ticks:
`(ts(now) - ts(created)) mod 256`. -/
def cookieAge (created now : Int64) : ℕ :=
  ((timeStamp now).toNat + 256 - (timeStamp created).toNat) % 256

theorem toNat_and_hashMask (x : UInt32) : (x &&& hashMask).toNat = x.toNat % 2 ^ 24 := by
  rw [UInt32.toNat_and]
  exact Nat.and_two_pow_sub_one_eq_mod _ 24

theorem toNat_and_tsMask (x : UInt32) : (x &&& tsMask).toNat = x.toNat % 2 ^ 8 := by
  rw [UInt32.toNat_and]
  exact Nat.and_two_pow_sub_one_eq_mod _ 8

theorem toNat_timeStamp_lt (unix : Int64) : (timeStamp unix).toNat < 2 ^ 8 := by
  rw [timeStamp, toNat_and_tsMask]
  exact Nat.mod_lt _ (by norm_num)

/-- Taking the first hash and the sequence number off a cookie leaves the timestamp above the
masked second hash of the data. -/
theorem createCookie_sub (l : ListenContext ι) (now : Int64) (id : ι) (seq data : UInt32) :
    createCookie l now id seq data - l.cookieHash id 0 0 - seq =
      (timeStamp now <<< tsOffset) + ((l.cookieHash id (timeStamp now) 1 + data) &&& hashMask) := by
  simp only [createCookie]
  grind

/-- A cookie's timestamp is the one it was made with. -/
theorem cookieTS_createCookie (l : ListenContext ι) (now : Int64) (id : ι) (seq data : UInt32) :
    (createCookie l now id seq data - l.cookieHash id 0 0 - seq) >>> tsOffset = timeStamp now := by
  have ht := toNat_timeStamp_lt now
  rw [createCookie_sub]
  apply UInt32.toNat_inj.mp
  rw [UInt32.toNat_shiftRight, UInt32.toNat_add, UInt32.toNat_shiftLeft, toNat_and_hashMask]
  simp only [tsOffset, UInt32.reduceToNat, Nat.reduceMod, Nat.shiftLeft_eq,
    Nat.shiftRight_eq_div_pow]
  omega

/-- The data comes back from a cookie whose hashes match. -/
theorem data_createCookie (l : ListenContext ι) (now : Int64) (id : ι) (seq data : UInt32)
    (hdata : data.toNat < 2 ^ 24) :
    (createCookie l now id seq data - l.cookieHash id 0 0 - seq -
        l.cookieHash id (timeStamp now) 1) &&& hashMask = data := by
  have ht := toNat_timeStamp_lt now
  rw [createCookie_sub]
  apply UInt32.toNat_inj.mp
  rw [toNat_and_hashMask, UInt32.toNat_sub, UInt32.toNat_add, UInt32.toNat_shiftLeft,
    toNat_and_hashMask, UInt32.toNat_add]
  simp only [tsOffset, UInt32.reduceToNat, Nat.reduceMod, Nat.shiftLeft_eq]
  have := (l.cookieHash id (timeStamp now) 1).toNat_lt
  omega

/-- The timestamp check of `isCookieValid` reads the cookie's age. -/
theorem toNat_tsDiff (created now : Int64) :
    ((timeStamp now - timeStamp created) &&& tsMask).toNat = cookieAge created now := by
  have hc := toNat_timeStamp_lt created
  have hn := toNat_timeStamp_lt now
  rw [toNat_and_tsMask, UInt32.toNat_sub, cookieAge]
  omega

/-- A cookie is valid, with its data, while it is at most `maxTSDiff` ticks old. -/
theorem isCookieValid_createCookie (l : ListenContext ι) (created now : Int64) (id : ι)
    (seq data : UInt32) (hdata : data.toNat < 2 ^ 24) :
    isCookieValid l now id (createCookie l created id seq data) seq =
      if cookieAge created now ≤ maxTSDiff.toNat then (data, true) else (0, false) := by
  have hage := toNat_tsDiff created now
  simp only [isCookieValid, cookieTS_createCookie, data_createCookie _ _ _ _ _ hdata]
  by_cases h : cookieAge created now ≤ maxTSDiff.toNat
  · rw [if_neg (by rw [gt_iff_lt, UInt32.lt_iff_toNat_lt, hage]; omega), if_pos h]
  · rw [if_pos (by rw [gt_iff_lt, UInt32.lt_iff_toNat_lt, hage]; omega), if_neg h]

/-- The loop of `encodeMSS` from `i` down finds the largest index `j ≥ 1` up to `i` with
`mssTable[j] ≤ mss`, or `0`. -/
theorem encodeMSSFrom_eq_findGreatest (mss : UInt16) {i : ℕ} (hi : i < mssTable.length) :
    (encodeMSSFrom mss i).toNat =
      Nat.findGreatest (fun j => 1 ≤ j ∧ mssTable.getD j 0 ≤ mss) i := by
  induction i with
  | zero => rfl
  | succ i ih =>
    rw [encodeMSSFrom, Nat.findGreatest_succ]
    by_cases h : mssTable.getD (i + 1) 0 ≤ mss
    · rw [if_pos h, if_pos ⟨by omega, h⟩,
        UInt32.toNat_ofNat_of_lt' (Nat.lt_trans hi (by decide))]
    · rw [if_neg h, if_neg (fun hp => h hp.2), ih (by omega)]

theorem encodeMSS_eq_findGreatest (mss : UInt16) :
    (encodeMSS mss).toNat =
      Nat.findGreatest (fun i => 1 ≤ i ∧ mssTable.getD i 0 ≤ mss) (mssTable.length - 1) :=
  encodeMSSFrom_eq_findGreatest mss (by simp [mssTable])

theorem toNat_encodeMSS_lt (mss : UInt16) : (encodeMSS mss).toNat < mssTable.length := by
  rw [encodeMSS_eq_findGreatest]
  exact Nat.lt_of_le_of_lt (Nat.findGreatest_le _) (by simp [mssTable])

/-- A listener past the SYN-RCVD threshold answers a SYN with a cookie. -/
theorem handleListenSegment_syn (l : ListenContext ι) (now : Int64) {s : ListenSegment ι}
    {opts : TCPSynOptions} (hflags : s.flags = tcpFlagSyn)
    (hopts : parseSynOptions s.options false = some opts) :
    handleListenSegment l now false s =
      some (.sendSynAck (createCookie l now s.id s.sequenceNumber (encodeMSS opts.mss))
        (s.sequenceNumber + 1) opts.ts opts.tsVal) := by
  simp only [handleListenSegment, if_pos hflags, hopts, Option.map_some, Bool.false_eq_true,
    if_false]

/-- An ACK is checked as a cookie one less than its acknowledgement number. -/
theorem handleListenSegment_ack (l : ListenContext ι) (now : Int64) (incSynRcvd : Bool)
    {s : ListenSegment ι} (hflags : s.flags = tcpFlagAck) :
    handleListenSegment l now incSynRcvd s =
      if (isCookieValid l now s.id (s.ackNumber - 1) (s.sequenceNumber - 1)).2 ∧
          (isCookieValid l now s.id (s.ackNumber - 1) (s.sequenceNumber - 1)).1.toNat <
            mssTable.length then
        some (.accept (s.ackNumber - 1) (s.sequenceNumber - 1)
          (mssTable.getD
            (isCookieValid l now s.id (s.ackNumber - 1) (s.sequenceNumber - 1)).1.toNat 0))
      else some .drop := by
  have hne : s.flags ≠ tcpFlagSyn := by rw [hflags]; decide
  simp only [handleListenSegment, if_neg hne, if_pos hflags]

/-- SYN cookies round-trip: whatever the hash, a cookie gives back its data while it is at most
`maxTSDiff` ticks old and is refused after that, and a listener that answered a SYN with a
cookie accepts the matching ACK with the MSS of the table entry `encodeMSS` chose, the largest
entry from index 1 on that does not exceed the SYN's MSS. -/
theorem synCookie_round_trip (l : ListenContext ι) (created now : Int64) (id : ι)
    (seq data : UInt32) (hdata : data.toNat < 2 ^ 24) :
    (cookieAge created now ≤ maxTSDiff.toNat →
        isCookieValid l now id (createCookie l created id seq data) seq = (data, true)) ∧
      (maxTSDiff.toNat < cookieAge created now →
        (isCookieValid l now id (createCookie l created id seq data) seq).2 = false) ∧
      (∀ (syn ack : ListenSegment ι) (opts : TCPSynOptions) (incSynRcvd : Bool),
        syn.flags = tcpFlagSyn → parseSynOptions syn.options false = some opts →
        ack.id = syn.id → ack.flags = tcpFlagAck →
        ack.ackNumber - 1 =
          createCookie l created syn.id syn.sequenceNumber (encodeMSS opts.mss) →
        ack.sequenceNumber - 1 = syn.sequenceNumber →
        handleListenSegment l created false syn =
            some (.sendSynAck (ack.ackNumber - 1) (syn.sequenceNumber + 1) opts.ts opts.tsVal) ∧
          handleListenSegment l now incSynRcvd ack =
            some (if cookieAge created now ≤ maxTSDiff.toNat then
              .accept (ack.ackNumber - 1) syn.sequenceNumber
                (mssTable.getD (encodeMSS opts.mss).toNat 0)
              else .drop)) ∧
      ∀ mss : UInt16, (encodeMSS mss).toNat =
        Nat.findGreatest (fun i => 1 ≤ i ∧ mssTable.getD i 0 ≤ mss)
          (mssTable.length - 1) := by
  have hvalid := isCookieValid_createCookie l created now id seq data hdata
  refine ⟨fun h => by rw [hvalid, if_pos h], fun h => by rw [hvalid, if_neg (by omega)], ?_,
    encodeMSS_eq_findGreatest⟩
  intro syn ack opts incSynRcvd hsyn hopts hid hack hcookie hseq
  refine ⟨by rw [handleListenSegment_syn l created hsyn hopts, hcookie], ?_⟩
  have hmss := toNat_encodeMSS_lt opts.mss
  have hmss' : (encodeMSS opts.mss).toNat < 2 ^ 24 := Nat.lt_trans hmss (by decide)
  rw [handleListenSegment_ack l now incSynRcvd hack, hid, hcookie, hseq,
    isCookieValid_createCookie l created now syn.id syn.sequenceNumber _ hmss']
  by_cases h : cookieAge created now ≤ maxTSDiff.toNat
  · simp only [if_pos h, true_and, if_pos hmss]
  · simp only [if_neg h, UInt32.toNat_zero, Bool.false_eq_true, false_and, if_false]

/-- A cookie hash for listeners told apart by port, for the examples below. -/
def portHash : ListenContext UInt16 :=
  ⟨fun port ts k => port.toUInt32 * 40503 + ts * 7 + .ofNat k⟩

/-- A cookie for port 80 made at tick 100 and checked at tick 101. -/
theorem synCookie_round_trip_port80 :
    (3 : UInt32).toNat < 2 ^ 24 ∧ cookieAge 6400 6464 ≤ maxTSDiff.toNat ∧
      isCookieValid portHash 6464 80 (createCookie portHash 6400 80 1000 3) 1000 = (3, true) := by
  have hdata : (3 : UInt32).toNat < 2 ^ 24 := by decide
  have hage : cookieAge 6400 6464 ≤ maxTSDiff.toNat := by decide
  exact ⟨hdata, hage, (synCookie_round_trip portHash 6400 6464 80 1000 3 hdata).1 hage⟩

example : handleListenSegment portHash 6464 true
      ⟨80, tcpFlagAck, 1000, createCookie portHash 6400 80 999 2 + 1, []⟩ =
    some (.accept (createCookie portHash 6400 80 999 2) 999 1440) := by decide

example : isCookieValid portHash (6400 + 3 * 64) 80 (createCookie portHash 6400 80 1000 3) 1000 =
    (0, false) := by decide

end ContainerFS.Tcp
