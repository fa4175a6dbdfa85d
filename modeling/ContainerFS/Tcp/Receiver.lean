import Mathlib.Data.List.Sort
import ContainerFS.Tcp.Seqnum
import ContainerFS.Net.Buffer

/-!
The TCP receiver (`transport/tcp/rcv.go`): segments in order are consumed and
handed to the endpoint's receive list, segments out of order wait in a heap
ordered by sequence number, and after each consumed segment the heap is
drained of the segments that have become consumable.

The heap (`segment_heap.go` under `container/heap`) is the list of its
segments sorted by sequence number: `Push` inserts a segment after those with
the same number, as `heap.Push` leaves an equal element below its parent, and
`Pop` removes the first. The endpoint's part is the receive list and its
closed flag, which `readyToRead` sets; the acknowledgements sent and the SACK
blocks kept are not modelled.
-/

namespace ContainerFS.Tcp

open Buffer Seqnum

variable {α : Type}

def tcpFlagFin : UInt8 := 1

def tcpFlagSyn : UInt8 := 2

/-- A `segment` as the receiver reads it: its sequence number, its data and its
flags. -/
structure Segment (α : Type) where
  sequenceNumber : UInt32
  data : VectorisedView α
  flags : UInt8
  deriving DecidableEq, Repr

namespace Segment

def flagIsSet (s : Segment α) (flag : UInt8) : Bool := s.flags &&& flag != 0

/-- `logicalLen`: the data and one for each of `SYN` and `FIN`. -/
def logicalLen (s : Segment α) : UInt32 :=
  let l := s.data.size.toUInt32
  let l := if s.flagIsSet tcpFlagSyn then l + 1 else l
  if s.flagIsSet tcpFlagFin then l + 1 else l

/-- The heap's order: `segmentHeap.Less`. -/
def Before (s t : Segment α) : Prop := lessThan s.sequenceNumber t.sequenceNumber = true

instance : DecidableRel (Before : Segment α → Segment α → Prop) :=
  fun _ _ => inferInstanceAs (Decidable (_ = true))

end Segment

/-- `receiver`, with the endpoint's receive list and its closed flag. -/
structure Receiver (α : Type) where
  rcvNxt : UInt32
  rcvAcc : UInt32
  rcvWndScale : UInt8
  closed : Bool
  pendingRcvdSegments : List (Segment α)
  pendingBufUsed : UInt32
  pendingBufSize : UInt32
  rcvList : List (VectorisedView α)
  rcvClosed : Bool
  deriving DecidableEq, Repr

def newReceiver (irs rcvWnd : UInt32) (rcvWndScale : UInt8) : Receiver α :=
  ⟨irs + 1, irs + (rcvWnd + 1), rcvWndScale, false, [], 0, rcvWnd, [], false⟩

namespace Receiver

/-- `acceptable`, after the table on page 26 of RFC 793. -/
def acceptable (r : Receiver α) (segSeq segLen : UInt32) : Bool :=
  let rcvWnd := size r.rcvNxt r.rcvAcc
  if rcvWnd = 0 then segLen == 0 && segSeq == r.rcvNxt
  else inWindow segSeq r.rcvNxt rcvWnd || overlap r.rcvNxt rcvWnd segSeq segLen

/-- `endpoint.readyToRead`: a segment joins the receive list, and `nil` closes
it. -/
def readyToRead (r : Receiver α) : Option (Segment α) → Receiver α
  | some s => { r with rcvList := r.rcvList ++ [s.data] }
  | none => { r with rcvClosed := true }

/-- The end of `consumeSegment` for a segment in order: `rcvNxt` moves past
it, and a `FIN` closes the receiver and flushes the heap, all but its first
segment when that is the one consumed. -/
def consumeEnd (r : Receiver α) (s : Segment α) (segSeq segLen : UInt32) (atHead : Bool) :
    Receiver α × Segment α × Bool :=
  let r := { r with rcvNxt := segSeq + segLen }
  if s.flagIsSet tcpFlagFin then
    let r := ({ r with rcvNxt := r.rcvNxt + 1, closed := true }).readyToRead none
    let first := if r.pendingRcvdSegments ≠ [] ∧ atHead then 1 else 0
    ({ r with pendingRcvdSegments := r.pendingRcvdSegments.take first }, s, true)
  else (r, s, true)

/-- `consumeSegment`, with the segment as it is left (trimmed in place) and
whether it was consumed. The code compares the segment with the heap's first
by pointer, which holds exactly when the drain loop consumes that first
segment: here `atHead`. -/
def consumeSegment (r : Receiver α) (s : Segment α) (segSeq segLen : UInt32) (atHead : Bool) :
    Receiver α × Segment α × Bool :=
  if segLen > 0 then
    if !inWindow r.rcvNxt segSeq segLen then (r, s, false)
    else
      -- the data already acknowledged is trimmed off
      let (segSeq, segLen, s) :=
        if lessThan segSeq r.rcvNxt then
          let diff := size segSeq r.rcvNxt
          (segSeq + diff, segLen - diff,
            { s with
              sequenceNumber := s.sequenceNumber + diff
              data := s.data.trimFront diff.toNat })
        else (segSeq, segLen, s)
      (r.readyToRead (some s)).consumeEnd s segSeq segLen atHead
  else if segSeq ≠ r.rcvNxt then (r, s, false)
  else r.consumeEnd s segSeq segLen atHead

/-- The loop at the end of `handleRcvdSegment`: while the receiver is open,
the heap's first segment is popped if it ends before `rcvNxt`, its end taken
as `segSeq.Add(segLen - 1)`, or if it is consumed; the loop stops at the first
that is neither. Each round pops a segment, so the length of the heap bounds
the rounds. -/
def drainPending : ℕ → Receiver α → Receiver α
  | 0, r => r
  | fuel + 1, r =>
    match r.pendingRcvdSegments with
    | [] => r
    | s :: _ =>
      if r.closed then r
      else
        let segLen := s.data.size.toUInt32
        let segSeq := s.sequenceNumber
        let (r, s, popped) :=
          if !lessThan (segSeq + (segLen - 1)) r.rcvNxt then r.consumeSegment s segSeq segLen true
          else (r, s, true)
        if !popped then r
        else
          drainPending fuel
            { r with
              pendingRcvdSegments := r.pendingRcvdSegments.tail
              pendingBufUsed := r.pendingBufUsed - s.logicalLen }

/-- `handleRcvdSegment`. A segment that cannot be consumed yet is kept, if it
has data or a `FIN` and the heap is below its limit. -/
def handleRcvdSegment (r : Receiver α) (s : Segment α) : Receiver α :=
  if r.closed then r
  else
    let segLen := s.data.size.toUInt32
    let segSeq := s.sequenceNumber
    if !r.acceptable segSeq segLen then r
    else
      match r.consumeSegment s segSeq segLen false with
      | (r, _, true) => drainPending r.pendingRcvdSegments.length r
      | (r, _, false) =>
        if segLen > 0 ∨ s.flagIsSet tcpFlagFin then
          if r.pendingBufUsed < r.pendingBufSize then
            { r with
              pendingBufUsed := r.pendingBufUsed + s.logicalLen
              pendingRcvdSegments := r.pendingRcvdSegments.orderedInsert Segment.Before s }
          else r
        else r

end Receiver

/-- A bare `FIN` at 2. -/
def finSegment : Segment UInt8 := ⟨2, .empty, tcpFlagFin⟩

/-- The byte at 1, the one before the `FIN`. -/
def dataSegment : Segment UInt8 := ⟨1, ⟨[[0x61]], 1⟩, 0⟩

/-- The receiver with initial number 0 and window 100 after the `FIN`. -/
def finFirst : Receiver UInt8 := (newReceiver 0 100 0).handleRcvdSegment finSegment

/-- The `FIN` arrives before the byte in front of it and waits in the heap,
with one of the heap's hundred sequence numbers in use. The byte is then
consumed and delivered, and the drain loop drops the `FIN`: the receiver stays
open with `rcvNxt` at 2 and nothing left in the heap. -/
theorem fin_before_data_dropped :
    finFirst.pendingRcvdSegments = [finSegment] ∧
      finFirst.pendingBufUsed < finFirst.pendingBufSize ∧
      finFirst.handleRcvdSegment dataSegment =
        ⟨2, 101, 0, false, [], 0, 100, [dataSegment.data], false⟩ :=
  ⟨rfl, by decide, rfl⟩

end ContainerFS.Tcp
