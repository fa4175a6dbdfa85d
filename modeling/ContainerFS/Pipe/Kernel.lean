import ContainerFS.Lib.Iovec
import Mathlib.Data.Int.Init

/-!
The kernel pipe (`pkg/sentry/kernel/pipe`): a queue of byte buffers and a count
of the bytes queued, bounded by `max`. `write` queues the bytes it copies in as
one buffer: all of them when they fit, else `atomicIOBytes` of them if that
much room is left (`PIPE_BUF` atomicity), else none. `read` copies out from the
front buffers while the destination has room, truncating the last one it reads
from and removing those it used up.

The destination and the source of a call are taken to copy fully: a read's
destination is its room, and the bytes of a write are those its source holds.
`WF` says the count is the length of what is queued, within `max`, and no
queued buffer is empty. It holds of every state a run reaches. Over the run,
the bytes read followed by those still queued are the bytes queued at the
start followed by those written (`runPipe_spec`).
-/

namespace ContainerFS.KernelPipe

open ContainerFS.Iovec

/-- The errors of `read` and `write`; `wouldBlock` is `syserror.ErrWouldBlock`. -/
inductive Errno where
  | ebadf
  | epipe
  | wouldBlock
  deriving DecidableEq, Repr

/-- `Buffer`: a queued run of bytes. -/
structure Buffer where
  data : List UInt8
  deriving DecidableEq, Repr

def Buffer.size (b : Buffer) : ℕ := b.data.length

/-- `truncate`: the buffer without its first `n` bytes (`n ≤ size` at every call). -/
def Buffer.truncate (b : Buffer) (n : ℕ) : Buffer := ⟨b.data.drop n⟩

/-- The fields of `Pipe` that `read` and `write` use. `max` and `atomicIOBytes`
are fixed when the pipe is made. -/
structure Pipe where
  data : List Buffer
  max : ℕ
  size : ℤ
  atomicIOBytes : ℕ
  readers : ℕ
  writers : ℕ
  deriving DecidableEq, Repr

/-- `NewPipe`, before any reader or writer opens it. -/
def newPipe (sizeBytes atomicIOBytes : ℕ) : Pipe := ⟨[], sizeBytes, 0, atomicIOBytes, 0, 0⟩

/-- The loop of `read` over the buffers, with `room` bytes left in the
destination: the buffers left and the bytes copied out. -/
def readLoop : List Buffer → ℕ → List Buffer × List UInt8
  | [], _ => ([], [])
  | b :: bs, room =>
    let n0 := min b.size room
    let rest := if (b.truncate n0).size = 0 then bs else b.truncate n0 :: bs
    if room - n0 = 0 then (rest, b.data.take n0)
    else
      -- room is left, so `b` was used up and removed: the next front is `bs`'s
      let r := readLoop bs (room - n0)
      (r.1, b.data.take n0 ++ r.2)

/-- `Pipe.read` into a destination with room for `dst` bytes: the pipe after,
the bytes read, and the error. -/
def Pipe.read (p : Pipe) (dst : ℕ) : Pipe × List UInt8 × Option Errno :=
  if ¬0 < p.readers then (p, [], some .ebadf)
  else if dst = 0 then (p, [], none)
  else if p.size = 0 then
    -- no writers is end of file
    if ¬0 < p.writers then (p, [], none) else (p, [], some .wouldBlock)
  else
    let r := readLoop p.data dst
    ({ p with data := r.1, size := p.size - r.2.length }, r.2, none)

/-- The end of `Pipe.write` once `canWrite` is fixed: copy in that many bytes
and queue them as one buffer. -/
def Pipe.copyIn (p : Pipe) (src : List UInt8) (canWrite : ℕ) : Pipe × ℕ × Option Errno :=
  let buf := src.take canWrite
  let n := buf.length
  let p := if 0 < n then { p with data := p.data ++ [⟨buf⟩], size := p.size + n } else p
  (p, n, if n < src.length then some .wouldBlock else none)

/-- `Pipe.write` of the bytes `src`: the pipe after, the count written, and the
error. -/
def Pipe.write (p : Pipe) (src : List UInt8) : Pipe × ℕ × Option Errno :=
  if ¬0 < p.writers then (p, 0, some .ebadf)
  else if ¬0 < p.readers then (p, 0, some .epipe)
  else if (src.length : ℤ) > p.max - p.size then
    if p.max - p.size ≥ p.atomicIOBytes then p.copyIn src p.atomicIOBytes
    else (p, 0, some .wouldBlock)
  else p.copyIn src src.length

/-- A call on the pipe. -/
inductive Call where
  | read (dst : ℕ)
  | write (src : List UInt8)
  deriving DecidableEq, Repr

/-- A run of calls: the pipe after them, the bytes the reads returned and the
bytes the writes queued, in order. -/
def runPipe (p : Pipe) : List Call → Pipe × List UInt8 × List UInt8
  | [] => (p, [], [])
  | .read dst :: calls =>
    let r := p.read dst
    let rs := runPipe r.1 calls
    (rs.1, r.2.1 ++ rs.2.1, rs.2.2)
  | .write src :: calls =>
    let r := p.write src
    let rs := runPipe r.1 calls
    (rs.1, rs.2.1, src.take r.2.1 ++ rs.2.2)

/-- The bytes queued, front first. -/
def Pipe.contents (p : Pipe) : List UInt8 := (p.data.map Buffer.data).flatten

/-- The pipe's accounting: `size` counts the queued bytes, within `max`, and no
queued buffer is empty. -/
structure Pipe.WF (p : Pipe) : Prop where
  size_eq : p.size = p.contents.length
  size_le : p.size ≤ p.max
  nonempty : ∀ b ∈ p.data, b.data ≠ []

section Loop

theorem size_truncate (b : Buffer) (n : ℕ) : (b.truncate n).size = b.size - n := by
  simp [Buffer.truncate, Buffer.size]

/-- With room in the destination, the loop leaves what `consume` leaves of the
buffers' bytes: the buffers it used up go, and the one it stopped in is cut. -/
theorem map_data_readLoop (bs : List Buffer) {room : ℕ} (hroom : 0 < room) :
    (readLoop bs room).1.map Buffer.data = consume room (bs.map Buffer.data) := by
  induction bs generalizing room with
  | nil =>
    obtain ⟨r, rfl⟩ : ∃ r, room = r + 1 := ⟨room - 1, by omega⟩
    simp [readLoop, consume]
  | cons b bs ih =>
    obtain ⟨r, rfl⟩ : ∃ r, room = r + 1 := ⟨room - 1, by omega⟩
    by_cases hle : b.size ≤ r + 1
    · -- `b` is used up and removed
      have hmin : min b.size (r + 1) = b.size := Nat.min_eq_left hle
      have hlen : b.data.length ≤ r + 1 := hle
      simp only [readLoop, hmin, size_truncate, Nat.sub_self, if_true, List.map_cons, consume,
        hlen]
      by_cases hend : r + 1 - b.size = 0
      · simp only [hend, if_true]
        rw [show r + 1 - b.data.length = 0 from hend]
        simp only [consume]
      · simp only [hend, if_false]
        exact ih (by omega)
    · -- the loop stops inside `b`
      have hmin : min b.size (r + 1) = r + 1 := Nat.min_eq_right (by omega)
      have hlen : ¬b.data.length ≤ r + 1 := hle
      have hrest : (b.truncate (r + 1)).size ≠ 0 := by
        rw [size_truncate]
        omega
      simp only [readLoop, hmin, hrest, if_false, Nat.sub_self, if_true, List.map_cons, consume,
        hlen]
      rfl

/-- The loop copies out the first `room` bytes of the buffers. -/
theorem snd_readLoop (bs : List Buffer) (room : ℕ) :
    (readLoop bs room).2 = (bs.map Buffer.data).flatten.take room := by
  induction bs generalizing room with
  | nil => simp [readLoop]
  | cons b bs ih =>
    rw [List.map_cons, List.flatten_cons, List.take_append]
    by_cases hle : room ≤ b.size
    · -- the loop stops inside `b`, or at its end
      have htake : room - b.data.length = 0 := Nat.sub_eq_zero_of_le hle
      simp only [readLoop, Nat.min_eq_right hle, Nat.sub_self, if_true, htake, List.take_zero,
        List.append_nil]
    · have hmin : min b.size room = b.data.length := Nat.min_eq_left (by omega)
      have hend : room - b.data.length ≠ 0 := by
        simp only [Buffer.size] at hle
        omega
      simp only [readLoop, hmin, hend, if_false, ih, List.take_length,
        List.take_of_length_le (show b.data.length ≤ room by omega)]

/-- The loop keeps every queued buffer non-empty. -/
theorem nonempty_readLoop {bs : List Buffer} (room : ℕ) (hne : ∀ b ∈ bs, b.data ≠ []) :
    ∀ b ∈ (readLoop bs room).1, b.data ≠ [] := by
  induction bs generalizing room with
  | nil => simp [readLoop]
  | cons b bs ih =>
    have hbs : ∀ c ∈ bs, c.data ≠ [] := fun c hc => hne c (List.mem_cons_of_mem _ hc)
    -- the buffers left are `bs`, or the cut `b` in front of them when it is not empty
    have hrest : ∀ c ∈ (if (b.truncate (min b.size room)).size = 0 then bs
        else b.truncate (min b.size room) :: bs), c.data ≠ [] := by
      split_ifs with hz
      · exact hbs
      · intro c hc
        rcases List.mem_cons.mp hc with rfl | hc
        · intro hnil
          exact hz (by rw [Buffer.size, hnil]; rfl)
        · exact hbs c hc
    simp only [readLoop]
    by_cases hend : room - min b.size room = 0
    · simp only [hend, if_true]
      exact hrest
    · simp only [hend, if_false]
      exact ih _ hbs

/-- With room in the destination, the bytes left queued are the rest. -/
theorem contents_readLoop (bs : List Buffer) {room : ℕ} (hroom : 0 < room) :
    ((readLoop bs room).1.map Buffer.data).flatten = (bs.map Buffer.data).flatten.drop room := by
  rw [map_data_readLoop bs hroom, flatten_consume]

end Loop

/-- What a write of `src` may return: everything written, or nothing and
`ErrWouldBlock`, or, for a write larger than `atomicIOBytes`, exactly
`atomicIOBytes` bytes and `ErrWouldBlock`. -/
def WriteOutcome (atomicIOBytes : ℕ) (src : List UInt8) (n : ℕ) (err : Option Errno) : Prop :=
  (n = src.length ∧ err = none) ∨ (n = 0 ∧ err = some .wouldBlock) ∨
    (atomicIOBytes < src.length ∧ n = atomicIOBytes ∧ err = some .wouldBlock)

/-- What a read with room for `dst` bytes may return from a pipe holding `size`:
`ErrWouldBlock` on an empty pipe when there is room, else `min size dst` bytes. -/
def ReadOutcome (size : ℤ) (dst : ℕ) (out : List UInt8) (err : Option Errno) : Prop :=
  if 0 < dst ∧ size = 0 then out = [] ∧ err = some .wouldBlock
  else (out.length : ℤ) = min size dst ∧ err = none

section Calls

variable {p : Pipe}

@[simp]
theorem contents_with (p : Pipe) (data : List Buffer) (size : ℤ) :
    ({ p with data := data, size := size } : Pipe).contents = (data.map Buffer.data).flatten := rfl

/-- `copyIn` changes the queue and the count and nothing else. -/
theorem copyIn_frame (p : Pipe) (src : List UInt8) (canWrite : ℕ) :
    ∃ data size, (p.copyIn src canWrite).1 = { p with data := data, size := size } := by
  dsimp only [Pipe.copyIn]
  split_ifs
  · exact ⟨_, _, rfl⟩
  · exact ⟨p.data, p.size, rfl⟩

/-- `read` changes the queue and the count and nothing else. -/
theorem read_frame (p : Pipe) (dst : ℕ) :
    ∃ data size, (p.read dst).1 = { p with data := data, size := size } := by
  unfold Pipe.read
  split_ifs
  all_goals first
    | exact ⟨p.data, p.size, rfl⟩
    | exact ⟨_, _, rfl⟩

/-- `write` changes the queue and the count and nothing else. -/
theorem write_frame (p : Pipe) (src : List UInt8) :
    ∃ data size, (p.write src).1 = { p with data := data, size := size } := by
  unfold Pipe.write
  split_ifs
  all_goals first
    | exact ⟨p.data, p.size, rfl⟩
    | exact copyIn_frame _ _ _

/-- `read` on a pipe with readers and writers: nothing for a zero-length
read, `ErrWouldBlock` on an empty pipe, else the loop. -/
theorem read_of_pos (hr : 0 < p.readers) (hw : 0 < p.writers) (dst : ℕ) :
    p.read dst = if dst = 0 then (p, [], none) else if p.size = 0 then (p, [], some .wouldBlock)
      else
        ({ p with data := (readLoop p.data dst).1, size := p.size - (readLoop p.data dst).2.length },
          (readLoop p.data dst).2, none) := by
  simp [Pipe.read, hr, hw]

/-- A read takes the first bytes off the queue, keeps the accounting, and
returns what `ReadOutcome` allows. -/
theorem read_spec (hwf : p.WF) (hr : 0 < p.readers) (hw : 0 < p.writers) (dst : ℕ) :
    (p.read dst).2.1 ++ (p.read dst).1.contents = p.contents ∧ (p.read dst).1.WF ∧
      ReadOutcome p.size dst (p.read dst).2.1 (p.read dst).2.2 := by
  have hsize := hwf.size_eq
  have hle := hwf.size_le
  rw [read_of_pos hr hw]
  unfold ReadOutcome
  by_cases hdst : dst = 0
  · -- a zero-length read returns nothing
    have hcond : ¬(0 < dst ∧ p.size = 0) := fun h => by omega
    rw [if_pos hdst, if_neg hcond]
    refine ⟨rfl, hwf, ?_, rfl⟩
    simp only [List.length_nil, hdst]
    omega
  by_cases hempty : p.size = 0
  · -- an empty pipe with a writer blocks
    have hcond : 0 < dst ∧ p.size = 0 := ⟨by omega, hempty⟩
    rw [if_neg hdst, if_pos hempty, if_pos hcond]
    exact ⟨rfl, hwf, rfl, rfl⟩
  -- the loop: the first `dst` bytes out, the rest queued
  have hcond : ¬(0 < dst ∧ p.size = 0) := fun h => hempty h.2
  rw [if_neg hdst, if_neg hempty, if_neg hcond]
  have hout : (readLoop p.data dst).2 = p.contents.take dst := snd_readLoop p.data dst
  have hrest : ((readLoop p.data dst).1.map Buffer.data).flatten = p.contents.drop dst :=
    contents_readLoop p.data (show 0 < dst by omega)
  simp only [contents_with, hrest, hout, List.take_append_drop, List.length_take]
  refine ⟨trivial, ⟨?_, ?_, nonempty_readLoop dst hwf.nonempty⟩, ?_, trivial⟩
  · simp only [contents_with, hrest, List.length_drop]
    omega
  · dsimp only
    omega
  · omega

/-- Copying in `canWrite` bytes, within the room left, queues the first
`canWrite` bytes of the source and keeps the accounting. -/
theorem copyIn_spec (hwf : p.WF) (src : List UInt8) {canWrite : ℕ}
    (hc : (canWrite : ℤ) ≤ p.max - p.size) :
    (p.copyIn src canWrite).1.contents = p.contents ++ src.take canWrite ∧
      (p.copyIn src canWrite).1.WF ∧ (p.copyIn src canWrite).2.1 = min canWrite src.length ∧
      (p.copyIn src canWrite).2.2 = if canWrite < src.length then some .wouldBlock else none := by
  have hsize := hwf.size_eq
  have hlen : (src.take canWrite).length = min canWrite src.length := List.length_take
  have herr : (if min canWrite src.length < src.length then some Errno.wouldBlock else none) =
      if canWrite < src.length then some .wouldBlock else none := by
    have hiff : min canWrite src.length < src.length ↔ canWrite < src.length := by omega
    simp only [hiff]
  dsimp only [Pipe.copyIn]
  rw [hlen]
  by_cases hn : 0 < min canWrite src.length
  · -- the bytes copied are queued as one non-empty buffer
    rw [if_pos hn]
    have hcontents : ((p.data ++ [(⟨src.take canWrite⟩ : Buffer)]).map Buffer.data).flatten =
        p.contents ++ src.take canWrite := by
      simp [Pipe.contents]
    rw [contents_with, hcontents]
    refine ⟨rfl, ⟨?_, ?_, ?_⟩, rfl, herr⟩
    · rw [contents_with, hcontents, List.length_append, hlen]
      dsimp only
      omega
    · dsimp only
      omega
    · intro b hb
      rcases List.mem_append.mp hb with hb | hb
      · exact hwf.nonempty b hb
      · rw [List.mem_singleton.mp hb]
        intro hnil
        have := congrArg List.length hnil
        rw [hlen] at this
        simp only [List.length_nil] at this
        omega
  · -- nothing was copied
    rw [if_neg hn]
    have hnil : src.take canWrite = [] := List.eq_nil_of_length_eq_zero (by omega)
    exact ⟨by rw [hnil, List.append_nil], hwf, rfl, herr⟩

/-- A write queues the bytes it reports written, keeps the accounting, and
returns what `WriteOutcome` allows. -/
theorem write_spec (hwf : p.WF) (hr : 0 < p.readers) (hw : 0 < p.writers) (src : List UInt8) :
    (p.write src).1.contents = p.contents ++ src.take (p.write src).2.1 ∧ (p.write src).1.WF ∧
      WriteOutcome p.atomicIOBytes src (p.write src).2.1 (p.write src).2.2 := by
  have hle := hwf.size_le
  unfold Pipe.write WriteOutcome
  rw [if_neg (not_not.mpr hw), if_neg (not_not.mpr hr)]
  by_cases hbig : (src.length : ℤ) > p.max - p.size
  · rw [if_pos hbig]
    by_cases hroom : p.max - p.size ≥ p.atomicIOBytes
    · -- `atomicIOBytes` of the bytes fit: they are written, and the rest blocks
      rw [if_pos hroom]
      obtain ⟨hc, hwf', hn, herr⟩ := copyIn_spec hwf src hroom
      have hlt : p.atomicIOBytes < src.length := by omega
      rw [hn, Nat.min_eq_left (Nat.le_of_lt hlt)]
      rw [if_pos hlt] at herr
      exact ⟨hc, hwf', .inr (.inr ⟨hlt, rfl, herr⟩)⟩
    · -- not even `atomicIOBytes` fit: nothing is written
      rw [if_neg hroom]
      exact ⟨by simp, hwf, .inr (.inl ⟨rfl, rfl⟩)⟩
  · -- everything fits
    rw [if_neg hbig]
    obtain ⟨hc, hwf', hn, herr⟩ := copyIn_spec hwf src (show (src.length : ℤ) ≤ p.max - p.size by omega)
    rw [hn, Nat.min_self]
    rw [if_neg (Nat.lt_irrefl _)] at herr
    exact ⟨hc, hwf', .inl ⟨rfl, herr⟩⟩

end Calls

section Run

/-- Over a run from a well-formed pipe with readers and writers, every state is
well formed, and the bytes read, then those still queued, are the bytes queued
at the start, then those written. Only the queue and the count change. -/
theorem runPipe_spec (calls : List Call) {p : Pipe} (hwf : p.WF) (hr : 0 < p.readers)
    (hw : 0 < p.writers) :
    (runPipe p calls).1.WF ∧
      (runPipe p calls).2.1 ++ (runPipe p calls).1.contents = p.contents ++ (runPipe p calls).2.2 ∧
      ∃ data size, (runPipe p calls).1 = { p with data := data, size := size } := by
  -- induction on the calls; each step keeps `WF` and the readers and writers
  induction calls generalizing p with
  | nil => exact ⟨hwf, by simp [runPipe], p.data, p.size, rfl⟩
  | cons call calls ih =>
    cases call with
    | read dst =>
      obtain ⟨hfifo, hwf', -⟩ := read_spec hwf hr hw dst
      obtain ⟨d, sz, hq⟩ := read_frame p dst
      have hr' : 0 < (p.read dst).1.readers := by rw [hq]; exact hr
      have hw' : 0 < (p.read dst).1.writers := by rw [hq]; exact hw
      obtain ⟨hwfR, hfifoR, d', sz', hqR⟩ := ih hwf' hr' hw'
      refine ⟨hwfR, ?_, d', sz', by rw [runPipe, hqR, hq]⟩
      simp only [runPipe, List.append_assoc, hfifoR, ← hfifo]
    | write src =>
      obtain ⟨hfifo, hwf', -⟩ := write_spec hwf hr hw src
      obtain ⟨d, sz, hq⟩ := write_frame p src
      have hr' : 0 < (p.write src).1.readers := by rw [hq]; exact hr
      have hw' : 0 < (p.write src).1.writers := by rw [hq]; exact hw
      obtain ⟨hwfR, hfifoR, d', sz', hqR⟩ := ih hwf' hr' hw'
      refine ⟨hwfR, ?_, d', sz', by rw [runPipe, hqR, hq]⟩
      simp only [runPipe, hfifoR, hfifo, List.append_assoc]

/-- From a new pipe with readers and writers, over every run of reads and
writes: the accounting holds; the bytes read are a prefix of the bytes
written and the rest is queued; and the next call, whichever it is, returns
what `WriteOutcome` and `ReadOutcome` allow. -/
theorem runPipe_bounded_fifo (sizeBytes atomicIOBytes readers writers : ℕ) (hr : 0 < readers)
    (hw : 0 < writers) (calls : List Call) :
    let p := runPipe { newPipe sizeBytes atomicIOBytes with readers := readers, writers := writers } calls
    p.1.WF ∧ 0 ≤ p.1.size ∧ p.2.1 ++ p.1.contents = p.2.2 ∧
      (∀ src, WriteOutcome atomicIOBytes src (p.1.write src).2.1 (p.1.write src).2.2) ∧
      ∀ dst, ReadOutcome p.1.size dst (p.1.read dst).2.1 (p.1.read dst).2.2 := by
  intro p
  have hwf0 : ({ newPipe sizeBytes atomicIOBytes with readers := readers, writers := writers } :
      Pipe).WF := ⟨rfl, by simp [newPipe], by simp [newPipe]⟩
  obtain ⟨hwf, hfifo, d, sz, hq⟩ := runPipe_spec calls hwf0 hr hw
  have hr' : 0 < p.1.readers := by rw [hq]; exact hr
  have hw' : 0 < p.1.writers := by rw [hq]; exact hw
  have hatomic : p.1.atomicIOBytes = atomicIOBytes := by rw [hq]; rfl
  -- the new pipe queues nothing, so the bytes read and still queued are those written
  rw [show ({ newPipe sizeBytes atomicIOBytes with readers := readers, writers := writers } :
      Pipe).contents = [] from rfl, List.nil_append] at hfifo
  refine ⟨hwf, ?_, hfifo, ?_, ?_⟩
  · rw [hwf.size_eq]
    omega
  · intro src
    rw [← hatomic]
    exact (write_spec hwf hr' hw' src).2.2
  · intro dst
    exact (read_spec hwf hr' hw' dst).2.2

theorem runPipe_bounded_fifo_threeCalls :
    let p := runPipe { newPipe 8 4 with readers := 1, writers := 1 }
      [.write [1, 2, 3, 4, 5, 6], .read 4, .write [7, 8, 9, 10, 11, 12, 13]]
    p.2.1 ++ p.1.contents = p.2.2 :=
  (runPipe_bounded_fifo 8 4 1 1 (by decide) (by decide)
    [.write [1, 2, 3, 4, 5, 6], .read 4, .write [7, 8, 9, 10, 11, 12, 13]]).2.2.1

end Run

end ContainerFS.KernelPipe
