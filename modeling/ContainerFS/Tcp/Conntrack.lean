import ContainerFS.Tcp.Cookies

/-!
TCP connection tracking (`transport/tcpconntrack/tcp_conntrack.go`). A `TCB` follows the two
streams of a connection from the segments it is shown: `UpdateStateInbound` for segments from
the peer, `UpdateStateOutbound` for segments sent. Before the peer's SYN the handlers are the
SYN-SENT ones; after it both directions go through `update`, called with the two streams
swapped for outbound segments. The stream pointers of the source are the pair of streams
passed in and returned, and `firstFin`, a pointer to one of the streams, is the direction
whose stream saw the first FIN.

What holds of every step (`conntrack_tracks`): RST and FIN flags stay set and the FIN's number
stays; each stream's `una` and `nxt` only move forward in sequence-number order, except at the
peer's SYN, which sets the inbound stream's from its ISN; a graceful close is reported for the
stream that saw the first FIN; and after a RST the connection is no longer alive. The inbound
`una` moving backwards at the SYN, `IsAlive` coming back once an acknowledgement moves `una`
half the sequence space past the FIN, and `nxt` before `una` after a SYN whose data offset
exceeds its length, are `conntrack_not_monotone`.
-/

namespace ContainerFS.Tcp.Conntrack

open Seqnum

def tcpFlagRst : UInt8 := 4

/-- The fields of a TCP header that connection tracking reads, and the header's length
`len(tcp)`. -/
structure Header where
  sequenceNumber : UInt32
  ackNumber : UInt32
  flags : UInt8
  windowSize : UInt16
  dataOffset : UInt8
  length : ℕ
  deriving DecidableEq, Repr

/-- `dataLen`: `seqnum.Size(len(tcp) - int(tcp.DataOffset()))`, wrapping as the conversion
does. -/
def dataLen (tcp : Header) : UInt32 := UInt32.ofNat tcp.length - tcp.dataOffset.toUInt32

/-- `logicalLen`: the data and one for each of SYN and FIN. -/
def logicalLen (tcp : Header) : UInt32 :=
  let l := dataLen tcp
  let l := if tcp.flags &&& tcpFlagSyn != 0 then l + 1 else l
  if tcp.flags &&& tcpFlagFin != 0 then l + 1 else l

inductive Result where
  | drop
  | connecting
  | alive
  | reset
  | closedByPeer
  | closedBySelf
  deriving DecidableEq, Repr

/-- `stream`: the window `[una, end)`, the next number `nxt`, and the FIN and RST seen. -/
structure Stream where
  una : UInt32
  nxt : UInt32
  -- `end` is a keyword
  «end» : UInt32
  finSeen : Bool
  fin : UInt32
  rstSeen : Bool
  deriving DecidableEq, Repr

namespace Stream

/-- `stream.acceptable`: in the window `[una, end)`, or, for an empty window, empty and at
`una`. -/
def acceptable (s : Stream) (segSeq segLen : UInt32) : Bool :=
  let wnd := size s.una s.«end»
  if wnd = 0 then segLen = 0 && segSeq = s.una
  else
    -- make `[segSeq, segSeq + segLen)` non-empty
    let segLen := if segLen = 0 then 1 else segLen
    overlap s.una wnd segSeq segLen

/-- `stream.closed`: a FIN was sent and acknowledged. -/
def closed (s : Stream) : Bool := s.finSeen && lessThan s.fin s.una

/-- An acknowledgement `ack` with window `wnd` advances the `una` and `end` of the stream it
acknowledges (the same lines in `synSentStateInbound` and `update`). -/
def acked (s : Stream) (ack : UInt32) (wnd : UInt16) : Stream :=
  let s := if lessThan s.una ack then { s with una := ack } else s
  let e := ack + wnd.toUInt32
  if lessThan s.«end» e then { s with «end» := e } else s

/-- A segment ending at `e` advances the `nxt` of the stream carrying it. -/
def sent (s : Stream) (e : UInt32) : Stream :=
  if lessThan s.nxt e then { s with nxt := e } else s

end Stream

/-- The stream a pointer of the source points to: the `TCB`'s inbound or outbound one. -/
inductive Dir where
  | inbound
  | outbound
  deriving DecidableEq, Repr

/-- The other direction. -/
def Dir.other : Dir → Dir
  | .inbound => .outbound
  | .outbound => .inbound

/-- Which state handlers are installed: the SYN-SENT ones, or `allOther*`. -/
inductive Phase where
  | synSent
  | allOther
  deriving DecidableEq, Repr

structure TCB where
  inbound : Stream
  outbound : Stream
  phase : Phase
  firstFin : Option Dir
  state : Result
  deriving DecidableEq, Repr

namespace TCB

/-- A zero stream, as in a `TCB` declared and not yet initialised. -/
def zeroStream : Stream := ⟨0, 0, 0, false, 0, false⟩

/-- A `TCB` declared and not yet initialised. -/
def zero : TCB := ⟨zeroStream, zeroStream, .synSent, none, .drop⟩

def init (t : TCB) (initialSyn : Header) : TCB × Result :=
  let iss := initialSyn.sequenceNumber
  let nxt := iss + logicalLen initialSyn
  let outbound := { t.outbound with una := iss, nxt := nxt, «end» := nxt }
  -- the window size stands in `end` until the peer's ISN is known
  let inbound := { t.inbound with una := 0, nxt := 0, «end» := initialSyn.windowSize.toUInt32 }
  ({ t with inbound, outbound, phase := .synSent, state := .connecting }, .connecting)

def isAlive (t : TCB) : Bool :=
  !t.inbound.rstSeen && !t.outbound.rstSeen && (!t.inbound.closed || !t.outbound.closed)

/-- `TCB.adaptResult`: `Alive` with both streams closed is a close by whoever sent the first
FIN. -/
def adaptResult (t : TCB) (r : Result) : Result :=
  if r != .alive || !t.inbound.closed || !t.outbound.closed then r
  else if t.firstFin = some .outbound then .closedBySelf
  else .closedByPeer

def synSentStateInbound (t : TCB) (tcp : Header) : TCB × Result :=
  let flags := tcp.flags
  let ackPresent := flags &&& tcpFlagAck != 0
  let ack := tcp.ackNumber
  if ackPresent && !inRange (ack - 1) t.outbound.una t.outbound.nxt then (t, .connecting)
  else if flags &&& tcpFlagRst != 0 then
    if ackPresent then ({ t with inbound.rstSeen := true }, .reset) else (t, .connecting)
  else if flags &&& tcpFlagSyn = 0 then (t, .connecting)
  else
    let irs := tcp.sequenceNumber
    let inbound := { t.inbound with
      una := irs, nxt := irs + logicalLen tcp, «end» := t.inbound.«end» + irs }
    let outbound := { t.outbound with «end» := t.outbound.una + tcp.windowSize.toUInt32 }
    -- an acceptable ACK advances the outbound stream
    let outbound := if ackPresent then outbound.acked ack tcp.windowSize else outbound
    ({ t with inbound, outbound, phase := .allOther }, .alive)

/-- `synSentStateOutbound`: only retransmits of the SYN, which may raise the window kept in
the inbound stream's `end`. -/
def synSentStateOutbound (t : TCB) (tcp : Header) : TCB × Result :=
  if tcp.flags != tcpFlagSyn || tcp.sequenceNumber != t.outbound.una then (t, .drop)
  else
    let wnd := tcp.windowSize.toUInt32
    if wnd > t.inbound.«end» then ({ t with inbound.«end» := wnd }, .connecting)
    else (t, .connecting)

end TCB

/-- `update` on a segment carried by the stream `inbound` and acknowledging the stream
`outbound`, where `me` is the direction of `inbound`: the result, the two streams and
`firstFin`. -/
def update (tcp : Header) (inbound outbound : Stream) (firstFin : Option Dir) (me : Dir) :
    Result × Stream × Stream × Option Dir :=
  let s := tcp.sequenceNumber
  if !inbound.acceptable s (dataLen tcp) then (.alive, inbound, outbound, firstFin)
  else
    let flags := tcp.flags
    if flags &&& tcpFlagRst != 0 then (.reset, { inbound with rstSeen := true }, outbound, firstFin)
    else if flags &&& tcpFlagAck = 0 || flags &&& tcpFlagSyn != 0 then
      (.alive, inbound, outbound, firstFin)
    else
      let ack := tcp.ackNumber
      -- an acknowledgement of data not yet sent is ignored
      if lessThan outbound.nxt ack then (.alive, inbound, outbound, firstFin)
      else
        let outbound := outbound.acked ack tcp.windowSize
        let e := s + logicalLen tcp
        let inbound := inbound.sent e
        -- the first FIN of the stream, and of the connection
        if flags &&& tcpFlagFin != 0 && !inbound.finSeen then
          let inbound := { inbound with finSeen := true, fin := e - 1 }
          (.alive, inbound, outbound, if firstFin = none then some me else firstFin)
        else (.alive, inbound, outbound, firstFin)

namespace TCB

def allOtherInbound (t : TCB) (tcp : Header) : TCB × Result :=
  let (r, inbound, outbound, firstFin) := update tcp t.inbound t.outbound t.firstFin .inbound
  let t := { t with inbound, outbound, firstFin }
  (t, t.adaptResult r)

/-- `allOtherOutbound`: `update` with the streams swapped. -/
def allOtherOutbound (t : TCB) (tcp : Header) : TCB × Result :=
  let (r, outbound, inbound, firstFin) := update tcp t.outbound t.inbound t.firstFin .outbound
  let t := { t with inbound, outbound, firstFin }
  (t, t.adaptResult r)

/-- The installed handlers, `handlerInbound` and `handlerOutbound`. -/
def handler (t : TCB) (d : Dir) (tcp : Header) : TCB × Result :=
  match t.phase, d with
  | .synSent, .inbound => t.synSentStateInbound tcp
  | .synSent, .outbound => t.synSentStateOutbound tcp
  | .allOther, .inbound => t.allOtherInbound tcp
  | .allOther, .outbound => t.allOtherOutbound tcp

/-- `UpdateStateInbound` and `UpdateStateOutbound`: the installed handler, and the state
unless the segment is dropped. -/
def step (t : TCB) (d : Dir) (tcp : Header) : TCB × Result :=
  let (t', st) := t.handler d tcp
  if st != .drop then ({ t' with state := st }, st) else (t', st)

/-- A stream of the `TCB`. -/
def stream (t : TCB) : Dir → Stream
  | .inbound => t.inbound
  | .outbound => t.outbound

end TCB

end ContainerFS.Tcp.Conntrack

namespace ContainerFS.Tcp.Conntrack

open Seqnum

/-- `b` is `a` or after it in sequence-number order. -/
def Forward (a b : UInt32) : Prop := b = a ∨ lessThan a b = true

instance (a b : UInt32) : Decidable (Forward a b) := inferInstanceAs (Decidable (_ ∨ _))

theorem Forward.refl (a : UInt32) : Forward a a := .inl rfl

namespace Stream

variable (s : Stream) (ack e : UInt32) (wnd : UInt16)

@[simp] theorem acked_nxt : (s.acked ack wnd).nxt = s.nxt := by
  dsimp only [acked]
  split_ifs <;> rfl

@[simp] theorem acked_finSeen : (s.acked ack wnd).finSeen = s.finSeen := by
  dsimp only [acked]
  split_ifs <;> rfl

@[simp] theorem acked_fin : (s.acked ack wnd).fin = s.fin := by
  dsimp only [acked]
  split_ifs <;> rfl

@[simp] theorem acked_rstSeen : (s.acked ack wnd).rstSeen = s.rstSeen := by
  dsimp only [acked]
  split_ifs <;> rfl

/-- An acknowledgement moves `una` only forward. -/
theorem acked_una : Forward s.una (s.acked ack wnd).una := by
  dsimp only [acked]
  split_ifs with h1 h2 <;> simp [Forward, h1]

@[simp] theorem sent_una : (s.sent e).una = s.una := by
  dsimp only [sent]
  split_ifs <;> rfl

@[simp] theorem sent_finSeen : (s.sent e).finSeen = s.finSeen := by
  dsimp only [sent]
  split_ifs <;> rfl

@[simp] theorem sent_fin : (s.sent e).fin = s.fin := by
  dsimp only [sent]
  split_ifs <;> rfl

@[simp] theorem sent_rstSeen : (s.sent e).rstSeen = s.rstSeen := by
  dsimp only [sent]
  split_ifs <;> rfl

/-- A segment moves `nxt` only forward. -/
theorem sent_nxt : Forward s.nxt (s.sent e).nxt := by
  dsimp only [sent]
  split_ifs with h <;> simp [Forward, h]

end Stream

/-- What `update` does to the stream carrying the segment (`i`), the stream it acknowledges
(`o`) and `firstFin`, when `me` is the direction of `i`. -/
structure Advances (i o : Stream) (ff : Option Dir) (me : Dir) (i' o' : Stream)
    (ff' : Option Dir) : Prop where
  rst_in : i.rstSeen = true → i'.rstSeen = true
  rst_out : o'.rstSeen = o.rstSeen
  fin_in : i.finSeen = true → i'.finSeen = true ∧ i'.fin = i.fin
  fin_out : o'.finSeen = o.finSeen ∧ o'.fin = o.fin
  una_in : i'.una = i.una
  una_out : Forward o.una o'.una
  nxt_in : Forward i.nxt i'.nxt
  nxt_out : o'.nxt = o.nxt
  firstFin : ff' = if i'.finSeen && !i.finSeen && ff = none then some me else ff

theorem update_advances {tcp : Header} {i o : Stream} {ff : Option Dir} {me : Dir} {r : Result}
    {i' o' : Stream} {ff' : Option Dir} (h : update tcp i o ff me = (r, i', o', ff')) :
    Advances i o ff me i' o' ff' := by
  dsimp only [update] at h
  split_ifs at h with _ _ _ _ hfin <;> cases h <;> constructor <;>
    simp_all [Forward.refl, Stream.acked_una, Stream.sent_nxt]

/-- `update` reports a live or a reset connection; `adaptResult` turns the first into a close. -/
theorem update_result (tcp : Header) (i o : Stream) (ff : Option Dir) (me : Dir) :
    (update tcp i o ff me).1 = .alive ∨ (update tcp i o ff me).1 = .reset := by
  dsimp only [update]
  split_ifs <;> simp

namespace TCB

variable {t t' : TCB} {d : Dir} {tcp : Header} {r : Result}

@[simp] theorem stream_inbound (t : TCB) : t.stream .inbound = t.inbound := rfl

@[simp] theorem stream_outbound (t : TCB) : t.stream .outbound = t.outbound := rfl

/-- What a step keeps of the streams (module doc); the inbound stream's `una` and `nxt` only
once the handshake is over. -/
structure Keeps (t t' : TCB) : Prop where
  rstSeen : ∀ e, (t.stream e).rstSeen = true → (t'.stream e).rstSeen = true
  finSeen : ∀ e, (t.stream e).finSeen = true →
    (t'.stream e).finSeen = true ∧ (t'.stream e).fin = (t.stream e).fin
  una : ∀ e, t.phase = .allOther ∨ e = .outbound → Forward (t.stream e).una (t'.stream e).una
  nxt : ∀ e, t.phase = .allOther ∨ e = .outbound → Forward (t.stream e).nxt (t'.stream e).nxt

theorem Keeps.refl (t : TCB) : Keeps t t :=
  ⟨fun _ h => h, fun _ h => ⟨h, rfl⟩, fun _ _ => .refl _, fun _ _ => .refl _⟩

/-- How `firstFin` points at the streams that saw a FIN. -/
structure FinInv (t : TCB) : Prop where
  none_fin : t.firstFin = none → ∀ e, (t.stream e).finSeen = false
  some_fin : ∀ d, t.firstFin = some d → (t.stream d).finSeen = true

theorem dir_cases (me e : Dir) : e = me ∨ e = me.other := by
  cases me <;> cases e <;> simp [Dir.other]

/-- `update` on the stream of `me`, acknowledging the other one, keeps the streams. -/
theorem keeps_of_advances {me : Dir}
    (h : Advances (t.stream me) (t.stream me.other) t.firstFin me (t'.stream me)
      (t'.stream me.other) t'.firstFin) : Keeps t t' := by
  refine ⟨fun e he => ?_, fun e he => ?_, fun e _ => ?_, fun e _ => ?_⟩ <;>
    rcases dir_cases me e with rfl | rfl
  · exact h.rst_in he
  · rw [h.rst_out]
    exact he
  · exact h.fin_in he
  · rw [h.fin_out.1, h.fin_out.2]
    exact ⟨he, rfl⟩
  · rw [h.una_in]
    exact .refl _
  · exact h.una_out
  · exact h.nxt_in
  · rw [h.nxt_out]
    exact .refl _

/-- `update` points `firstFin` at the stream that saw the connection's first FIN. -/
theorem finInv_of_advances (hi : FinInv t) {me : Dir}
    (h : Advances (t.stream me) (t.stream me.other) t.firstFin me (t'.stream me)
      (t'.stream me.other) t'.firstFin) : FinInv t' := by
  have hkeep := keeps_of_advances h
  have hff := h.firstFin
  split_ifs at hff with hnew
  · -- the FIN seen now is the first of the connection
    simp only [Bool.and_eq_true, Bool.not_eq_true', decide_eq_true_eq] at hnew
    refine ⟨fun hnone => (by rw [hff] at hnone; cases hnone), fun d hd => ?_⟩
    rw [hff] at hd
    cases hd
    exact hnew.1.1
  · refine ⟨fun hnone e => ?_, fun d hd => hkeep.finSeen d (hi.some_fin d (hff ▸ hd)) |>.1⟩
    have hold := hi.none_fin (hff ▸ hnone)
    rcases dir_cases me e with rfl | rfl
    · cases hfin : (t'.stream e).finSeen
      · rfl
      · simp [hfin, hold e, hff ▸ hnone] at hnew
    · rw [h.fin_out.1]
      exact hold _

/-- `allOtherInbound` is `update` on the inbound stream, then `adaptResult`. -/
theorem allOtherInbound_spec (h : t.allOtherInbound tcp = (t', r)) :
    ∃ r₀, (r₀ = .alive ∨ r₀ = .reset) ∧ r = t'.adaptResult r₀ ∧
      t'.phase = t.phase ∧
      Advances (t.stream .inbound) (t.stream Dir.inbound.other) t.firstFin .inbound
        (t'.stream .inbound) (t'.stream Dir.inbound.other) t'.firstFin := by
  have hres := update_result tcp t.inbound t.outbound t.firstFin .inbound
  dsimp only [allOtherInbound] at h
  generalize hu : update tcp t.inbound t.outbound t.firstFin .inbound = u at h hres
  obtain ⟨r₀, i', o', ff'⟩ := u
  cases h
  exact ⟨r₀, hres, rfl, rfl, update_advances hu⟩

/-- `allOtherOutbound` is `update` on the outbound stream, then `adaptResult`. -/
theorem allOtherOutbound_spec (h : t.allOtherOutbound tcp = (t', r)) :
    ∃ r₀, (r₀ = .alive ∨ r₀ = .reset) ∧ r = t'.adaptResult r₀ ∧
      t'.phase = t.phase ∧
      Advances (t.stream .outbound) (t.stream Dir.outbound.other) t.firstFin .outbound
        (t'.stream .outbound) (t'.stream Dir.outbound.other) t'.firstFin := by
  have hres := update_result tcp t.outbound t.inbound t.firstFin .outbound
  dsimp only [allOtherOutbound] at h
  generalize hu : update tcp t.outbound t.inbound t.firstFin .outbound = u at h hres
  obtain ⟨r₀, o', i', ff'⟩ := u
  cases h
  exact ⟨r₀, hres, rfl, rfl, update_advances hu⟩

/-- The SYN-SENT handlers leave the FINs and `firstFin` alone and report no close. -/
theorem synSentStateInbound_fin (h : t.synSentStateInbound tcp = (t', r)) :
    t'.firstFin = t.firstFin ∧ (∀ e, (t'.stream e).finSeen = (t.stream e).finSeen ∧
      (t'.stream e).fin = (t.stream e).fin) ∧ r ≠ .closedBySelf ∧ r ≠ .closedByPeer := by
  dsimp only [synSentStateInbound] at h
  split_ifs at h <;> cases h <;> refine ⟨rfl, fun e => ?_, by simp, by simp⟩ <;>
    cases e <;> simp

theorem synSentStateOutbound_fin (h : t.synSentStateOutbound tcp = (t', r)) :
    t'.firstFin = t.firstFin ∧ (∀ e, (t'.stream e).finSeen = (t.stream e).finSeen ∧
      (t'.stream e).fin = (t.stream e).fin) ∧ r ≠ .closedBySelf ∧ r ≠ .closedByPeer := by
  dsimp only [synSentStateOutbound] at h
  split_ifs at h <;> cases h <;> refine ⟨rfl, fun e => ?_, by simp, by simp⟩ <;>
    cases e <;> simp

/-- The SYN-SENT handler of the peer's segments keeps the streams; the inbound stream's `una`
and `nxt` are the exception `Keeps` allows. -/
theorem synSentStateInbound_keeps (hp : t.phase = .synSent)
    (h : t.synSentStateInbound tcp = (t', r)) : Keeps t t' := by
  dsimp only [synSentStateInbound] at h
  have hin : ∀ e : Dir, t.phase = .allOther ∨ e = .outbound → e = .outbound := by
    intro e he
    rcases he with he | he
    · rw [hp] at he
      cases he
    · exact he
  split_ifs at h with hbad hrst hackRst hsyn hack <;> cases h
  · exact .refl t
  · -- a RST with an acceptable ACK
    constructor <;> intro e <;> cases e <;> simp [Forward.refl]
  · exact .refl t
  · exact .refl t
  -- the peer's SYN, with and without an ACK: only the outbound stream's `una` may move
  · refine ⟨fun e he => ?_, fun e he => ?_, fun e he => ?_, fun e he => ?_⟩
    · cases e <;> simpa using he
    · cases e <;> simpa using he
    · obtain rfl := hin e he
      exact Stream.acked_una
        { t.outbound with «end» := t.outbound.una + tcp.windowSize.toUInt32 } _ _
    · obtain rfl := hin e he
      simp [Forward.refl]
  · refine ⟨fun e he => ?_, fun e he => ?_, fun e he => ?_, fun e he => ?_⟩
    · cases e <;> simpa using he
    · cases e <;> simpa using he
    · obtain rfl := hin e he
      exact .refl _
    · obtain rfl := hin e he
      exact .refl _

theorem synSentStateOutbound_keeps (h : t.synSentStateOutbound tcp = (t', r)) : Keeps t t' := by
  dsimp only [synSentStateOutbound] at h
  split_ifs at h <;> cases h <;> constructor <;> intro e <;> cases e <;> simp [Forward.refl]

/-- Both SYN-SENT handlers change no FIN and `firstFin`, so they keep `FinInv`. -/
theorem finInv_of_fin_eq (hi : FinInv t) (hff : t'.firstFin = t.firstFin)
    (hfin : ∀ e, (t'.stream e).finSeen = (t.stream e).finSeen ∧
      (t'.stream e).fin = (t.stream e).fin) : FinInv t' := by
  refine ⟨fun hnone e => ?_, fun d hd => ?_⟩
  · rw [(hfin e).1]
    exact hi.none_fin (hff ▸ hnone) e
  · rw [(hfin d).1]
    exact hi.some_fin d (hff ▸ hd)

/-- `adaptResult` reports a close by this side only when the outbound FIN came first. -/
theorem adaptResult_closedBySelf (hi : FinInv t) (hr : r = .alive ∨ r = .reset)
    (h : t.adaptResult r = .closedBySelf) :
    t.firstFin = some .outbound ∧ t.outbound.finSeen = true := by
  unfold adaptResult at h
  split_ifs at h with hopen hself
  · rcases hr with rfl | rfl <;> cases h
  · exact ⟨hself, hi.some_fin _ hself⟩

/-- `adaptResult` reports a close by the peer only when the inbound FIN came first: both
streams are closed, so both saw a FIN and `firstFin` is set. -/
theorem adaptResult_closedByPeer (hi : FinInv t) (hr : r = .alive ∨ r = .reset)
    (h : t.adaptResult r = .closedByPeer) :
    t.firstFin = some .inbound ∧ t.inbound.finSeen = true := by
  unfold adaptResult at h
  split_ifs at h with hopen hself
  · rcases hr with rfl | rfl <;> cases h
  · have hclosed : t.inbound.closed = true := by
      by_contra hc
      simp [hc] at hopen
    have hfin : t.inbound.finSeen = true := ((Bool.and_eq_true _ _).mp hclosed).1
    cases hff : t.firstFin with
    | none =>
      have := hi.none_fin hff .inbound
      simp_all
    | some d =>
      cases d
      · exact ⟨rfl, hfin⟩
      · exact absurd hff hself

/-- What the installed handler keeps, and what its result says of `firstFin`. -/
theorem handler_keeps (h : t.handler d tcp = (t', r)) : Keeps t t' := by
  unfold handler at h
  cases hp : t.phase <;> cases d <;> simp only [hp] at h
  · exact synSentStateInbound_keeps hp h
  · exact synSentStateOutbound_keeps h
  · obtain ⟨_, _, _, _, hadv⟩ := allOtherInbound_spec h
    exact keeps_of_advances hadv
  · obtain ⟨_, _, _, _, hadv⟩ := allOtherOutbound_spec h
    exact keeps_of_advances hadv

theorem handler_finInv (hi : FinInv t) (h : t.handler d tcp = (t', r)) : FinInv t' := by
  unfold handler at h
  cases hp : t.phase <;> cases d <;> simp only [hp] at h
  · obtain ⟨hff, hfin, -⟩ := synSentStateInbound_fin h
    exact finInv_of_fin_eq hi hff hfin
  · obtain ⟨hff, hfin, -⟩ := synSentStateOutbound_fin h
    exact finInv_of_fin_eq hi hff hfin
  · obtain ⟨_, _, _, _, hadv⟩ := allOtherInbound_spec h
    exact finInv_of_advances hi hadv
  · obtain ⟨_, _, _, _, hadv⟩ := allOtherOutbound_spec h
    exact finInv_of_advances hi hadv

/-- A close is reported for the stream whose FIN came first. -/
theorem handler_closed (hi : FinInv t) (h : t.handler d tcp = (t', r)) :
    (r = .closedBySelf → t'.firstFin = some .outbound ∧ t'.outbound.finSeen = true) ∧
    (r = .closedByPeer → t'.firstFin = some .inbound ∧ t'.inbound.finSeen = true) := by
  have hi' := handler_finInv hi h
  unfold handler at h
  cases hp : t.phase <;> cases d <;> simp only [hp] at h
  · obtain ⟨-, -, hs, hp⟩ := synSentStateInbound_fin h
    exact ⟨fun e => absurd e hs, fun e => absurd e hp⟩
  · obtain ⟨-, -, hs, hp⟩ := synSentStateOutbound_fin h
    exact ⟨fun e => absurd e hs, fun e => absurd e hp⟩
  · obtain ⟨r₀, hr₀, rfl, -⟩ := allOtherInbound_spec h
    exact ⟨adaptResult_closedBySelf hi' hr₀, adaptResult_closedByPeer hi' hr₀⟩
  · obtain ⟨r₀, hr₀, rfl, -⟩ := allOtherOutbound_spec h
    exact ⟨adaptResult_closedBySelf hi' hr₀, adaptResult_closedByPeer hi' hr₀⟩

/-- `step` is the handler with the state recorded. -/
theorem step_eq (t : TCB) (d : Dir) (tcp : Header) :
    ∃ t' st r, t.handler d tcp = (t', r) ∧ t.step d tcp = ({ t' with state := st }, r) := by
  unfold step
  generalize t.handler d tcp = p
  obtain ⟨t', r⟩ := p
  dsimp only
  split_ifs
  · exact ⟨t', r, r, rfl, rfl⟩
  · exact ⟨t', t'.state, r, rfl, rfl⟩

/-- A RST seen on either stream leaves the connection dead. -/
theorem isAlive_of_rstSeen (h : t.inbound.rstSeen = true ∨ t.outbound.rstSeen = true) :
    t.isAlive = false := by
  rcases h with h | h <;> simp [isAlive, h]

end TCB

open TCB

/-- The `TCB`s reached from `Init(syn)` on a declared `TCB` by segments in both directions. -/
inductive Reachable : TCB → Prop
  | init (syn : Header) : Reachable (TCB.zero.init syn).1
  | step {t : TCB} (d : Dir) (tcp : Header) : Reachable t → Reachable (t.step d tcp).1

/-- The `TCB` after a sequence of segments, each inbound or outbound. -/
def TCB.run (t : TCB) (segs : List (Dir × Header)) : TCB :=
  segs.foldl (fun t s => (t.step s.1 s.2).1) t

theorem Reachable.run {t : TCB} (hr : Reachable t) (segs : List (Dir × Header)) :
    Reachable (t.run segs) := by
  induction segs generalizing t with
  | nil => exact hr
  | cons s segs ih => exact ih (.step s.1 s.2 hr)

theorem Reachable.finInv {t : TCB} (hr : Reachable t) : FinInv t := by
  induction hr with
  | init syn =>
    refine ⟨fun _ e => ?_, fun d hd => ?_⟩
    · cases e <;> rfl
    · cases hd
  | step d tcp _ ih =>
    obtain ⟨t', st, r, hh, hs⟩ := step_eq _ d tcp
    rw [hs]
    have hi := handler_finInv ih hh
    exact ⟨hi.none_fin, hi.some_fin⟩

/-- What each step of a tracked connection keeps, and what its result reports. -/
structure Tracks (t t' : TCB) (r : Result) : Prop where
  keeps : Keeps t t'
  closedBySelf : r = .closedBySelf → t'.firstFin = some .outbound ∧ t'.outbound.finSeen = true
  closedByPeer : r = .closedByPeer → t'.firstFin = some .inbound ∧ t'.inbound.finSeen = true
  dead : t.inbound.rstSeen = true ∨ t.outbound.rstSeen = true → t'.isAlive = false

/-- Every step of a connection tracked from `Init` keeps `Keeps` and `FinInv`'s consequences. -/
theorem conntrack_tracks {t : TCB} (hr : Reachable t) (d : Dir) (tcp : Header) :
    Tracks t (t.step d tcp).1 (t.step d tcp).2 := by
  obtain ⟨t', st, r, hh, hs⟩ := step_eq t d tcp
  have hkeep := handler_keeps hh
  have hclosed := handler_closed hr.finInv hh
  rw [hs]
  refine ⟨⟨hkeep.rstSeen, hkeep.finSeen, hkeep.una, hkeep.nxt⟩, hclosed.1, hclosed.2,
    fun hrst => ?_⟩
  apply isAlive_of_rstSeen
  rcases hrst with h | h
  · exact .inl (hkeep.rstSeen .inbound h)
  · exact .inr (hkeep.rstSeen .outbound h)

/-- A SYN from this side: sequence number 1000, window 65535. -/
def synOut : Header := ⟨1000, 0, tcpFlagSyn, 65535, 20, 20⟩

/-- The peer's SYN-ACK to `synOut`, with ISN 5000. -/
def synAckIn : Header := ⟨5000, 1001, tcpFlagSyn ||| tcpFlagAck, 1000, 20, 20⟩

theorem conntrack_tracks_synAck :
    Tracks (TCB.zero.init synOut).1 ((TCB.zero.init synOut).1.step .inbound synAckIn).1
      ((TCB.zero.init synOut).1.step .inbound synAckIn).2 :=
  conntrack_tracks (.init _) .inbound _

/-- The peer's SYN-ACK; a FIN each way, the last acknowledged, which closes the
connection; then an acknowledgement `2^31 + 1` past the inbound `una` that moves the inbound
`end` there, 100 bytes of the peer just below `una + 2^31`, and their acknowledgement, which
moves `una` half the sequence space past the peer's FIN. -/
def closeThenWrap : List (Dir × Header) :=
  [(.inbound, synAckIn),
   (.outbound, ⟨1001, 5001, tcpFlagFin ||| tcpFlagAck, 1000, 20, 20⟩),
   (.inbound, ⟨5001, 1002, tcpFlagFin ||| tcpFlagAck, 1000, 20, 20⟩),
   (.outbound, ⟨1002, 5002, tcpFlagAck, 1000, 20, 20⟩),
   (.outbound, ⟨1002, 5002 + 2 ^ 31 + 1, tcpFlagAck, 0, 20, 20⟩),
   (.inbound, ⟨5002 + 2 ^ 31 - 100, 1002, tcpFlagAck, 1000, 20, 120⟩),
   (.outbound, ⟨1002, 5002 + 2 ^ 31, tcpFlagAck, 0, 20, 20⟩)]

/-- The inbound `una` moves from 0 back to the peer's ISN `2^31 + 5` at its SYN-ACK; a
connection closed both ways (`IsAlive` false) is alive again after `closeThenWrap`; and a SYN
whose data offset exceeds its length leaves `nxt` before `una`, as `dataLen` wraps. -/
theorem conntrack_not_monotone :
    ¬Forward (TCB.zero.init synOut).1.inbound.una
      ((TCB.zero.init synOut).1.run
        [(.inbound, { synAckIn with sequenceNumber := 2 ^ 31 + 5 })]).inbound.una ∧
    ((TCB.zero.init synOut).1.run (closeThenWrap.take 4)).isAlive = false ∧
    ((TCB.zero.init synOut).1.run closeThenWrap).isAlive = true ∧
    lessThanEq (TCB.zero.init { synOut with dataOffset := 24 }).1.outbound.una
      (TCB.zero.init { synOut with dataOffset := 24 }).1.outbound.nxt = false := by
  decide

end ContainerFS.Tcp.Conntrack
