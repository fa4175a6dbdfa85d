import ContainerFS.Lib.Utf8

/-!
The pty line discipline (`pkg/sentry/fs/tty`, `queue.go` and
`line_discipline.go`, with the termios of `abi/linux/tty.go`). Each of the
input and output queues holds a read buffer of processed bytes and a wait
buffer of bytes that did not fit; writing runs the queue's transformer over the
bytes, one rune at a time, and reading moves bytes from the wait buffer in
behind what it takes.

A rune is a `Char`: `peekRune` reads a byte as the rune of that code point
when `IUTF8` is clear, and decodes UTF-8 otherwise; the read buffer receives
the rune through `WriteRune`, its UTF-8 encoding. So without `IUTF8` a byte
from `0x80` on reaches the reader as two bytes (`inputQueue_reencodes_byte`).

Readers and writers are byte lists: a read is given the room of its
destination and returns the bytes it copies out; copies do not fail.
Notifications are not modelled.
-/

namespace ContainerFS.Tty

open ContainerFS.Utf8

/-! ### Termios -/

def disabledChar : UInt8 := 0

def INLCR : UInt32 := 0o100
def IGNCR : UInt32 := 0o200
def ICRNL : UInt32 := 0o400
def IUTF8 : UInt32 := 0o40000

def OPOST : UInt32 := 0o1
def ONLCR : UInt32 := 0o4
def OCRNL : UInt32 := 0o10
def ONOCR : UInt32 := 0o20
def ONLRET : UInt32 := 0o40
def TABDLY : UInt32 := 0o14000
def XTABS : UInt32 := 0o14000

def ICANON : UInt32 := 0o2
def ECHO : UInt32 := 0o10
def IEXTEN : UInt32 := 0o100000

def VEOF : Fin 19 := 4
def VEOL : Fin 19 := 11
def VEOL2 : Fin 19 := 16

/-- `KernelTermios`, with the fields the line discipline reads. -/
structure KernelTermios where
  inputFlags : UInt32
  outputFlags : UInt32
  localFlags : UInt32
  controlCharacters : Vector UInt8 19
  deriving DecidableEq

namespace KernelTermios

def iEnabled (t : KernelTermios) (flag : UInt32) : Bool := t.inputFlags &&& flag == flag

def oEnabled (t : KernelTermios) (flag : UInt32) : Bool := t.outputFlags &&& flag == flag

def lEnabled (t : KernelTermios) (flag : UInt32) : Bool := t.localFlags &&& flag == flag

/-- `IsEOF`: `byte(c)` is the low byte of the rune. -/
def isEOF (t : KernelTermios) (c : Char) : Bool :=
  c.utf8Size == 1 && c.val.toUInt8 == t.controlCharacters.get VEOF &&
    t.controlCharacters.get VEOF != disabledChar

/-- `IsTerminating`: the `switch` is on `byte(c)`. -/
def isTerminating (t : KernelTermios) (c : Char) : Bool :=
  if t.isEOF c then true
  else
    let b := c.val.toUInt8
    if b = disabledChar then false
    else if b = 10 ∨ b = t.controlCharacters.get VEOL then true
    else if b = t.controlCharacters.get VEOL2 then t.lEnabled IEXTEN
    else false

end KernelTermios

/-! ### Queues and the line discipline -/

def canonMaxBytes : ℕ := 4096

def nonCanonMaxBytes : ℕ := canonMaxBytes - 1

def spacesPerTab : ℕ := 8

inductive Errno where
  | wouldBlock
  deriving DecidableEq, Repr

/-- `queue`: the transformer is fixed by which of the two queues it is. -/
structure Queue where
  readBuf : List UInt8
  waitBuf : List UInt8
  readable : Bool
  deriving DecidableEq

namespace Queue

def empty : Queue := ⟨[], [], false⟩

def write (q : Queue) (bytes : List UInt8) : Queue := { q with readBuf := q.readBuf ++ bytes }

/-- The readiness the transformers set at their end when bytes are buffered. -/
def markReadable (q : Queue) : Queue :=
  if q.readBuf.length > 0 then { q with readable := true } else q

end Queue

/-- The two queues. -/
inductive Side where
  | input
  | output
  deriving DecidableEq, Repr

structure LineDiscipline where
  termios : KernelTermios
  inQueue : Queue
  outQueue : Queue
  column : ℕ

def newLineDiscipline (termios : KernelTermios) : LineDiscipline :=
  ⟨termios, .empty, .empty, 0⟩

namespace LineDiscipline

def queue (l : LineDiscipline) : Side → Queue
  | .input => l.inQueue
  | .output => l.outQueue

def setQueue (l : LineDiscipline) : Side → Queue → LineDiscipline
  | .input, q => { l with inQueue := q }
  | .output, q => { l with outQueue := q }

/-- `peekRune`: a byte is a rune of its own unless `IUTF8` is set. -/
def peekRune (l : LineDiscipline) (b : List UInt8) : Char × ℕ :=
  if l.termios.iEnabled IUTF8 then decodeRune b else ((b.headD 0).toChar, 1)

def shouldDiscard (l : LineDiscipline) (q : Queue) (c : Char) : Bool :=
  l.termios.lEnabled ICANON && q.readBuf.length + c.utf8Size ≥ canonMaxBytes &&
    !l.termios.isTerminating c

end LineDiscipline

/-! ### The transformers -/

/-- One character of output processing, the `switch` of
`outputQueueTransformer.transform`: the bytes it writes and the column after. -/
def outputChar (t : KernelTermios) (column : ℕ) (c : Char) : List UInt8 × ℕ :=
  if c = '\n' then
    let column := if t.oEnabled ONLRET then 0 else column
    if t.oEnabled ONLCR then ([13, 10], column) else (String.utf8EncodeChar c, column)
  else if c = '\r' then
    if t.oEnabled ONOCR ∧ column = 0 then ([], column)
    else if t.oEnabled OCRNL then
      (String.utf8EncodeChar '\n', if t.oEnabled ONLRET then 0 else column)
    else (String.utf8EncodeChar c, 0)
  else if c = '\t' then
    let spaces := spacesPerTab - column % spacesPerTab
    if t.outputFlags &&& TABDLY = XTABS then (List.replicate spacesPerTab 32, column + spaces)
    else (String.utf8EncodeChar c, column + spaces)
  -- backspace: the column stops at zero
  else if c = '\x08' then (String.utf8EncodeChar c, column - 1)
  else (String.utf8EncodeChar c, column + 1)

/-- The loop of the output transformer with `OPOST`, with `fuel` turns: a turn
takes one rune off `buf`. -/
def outputLoop : ℕ → LineDiscipline → List UInt8 → ℕ → LineDiscipline × ℕ
  | 0, l, _, ret => (l, ret)
  | fuel + 1, l, buf, ret =>
    if buf = [] then (l, ret)
    else
      let (c, size) := l.peekRune buf
      let (out, column) := outputChar l.termios l.column c
      outputLoop fuel { l with column := column, outQueue := l.outQueue.write out }
        (buf.drop size) (ret + size)

def outputTransform (l : LineDiscipline) (buf : List UInt8) : LineDiscipline × ℕ :=
  if !l.termios.oEnabled OPOST then
    ({ l with outQueue := (l.outQueue.write buf).markReadable }, buf.length)
  else
    let (l, ret) := outputLoop (buf.length + 1) l buf 0
    ({ l with outQueue := l.outQueue.markReadable }, ret)

/-- `queue.writeBytes` of a queue with transformer `tr`: what the transformer
does not take goes to the wait buffer. -/
def writeBytesWith (tr : LineDiscipline → List UInt8 → LineDiscipline × ℕ) (side : Side)
    (l : LineDiscipline) (b : List UInt8) : LineDiscipline × ℕ :=
  let (l, n) := tr l b
  let q := l.queue side
  (l.setQueue side { q with waitBuf := q.waitBuf ++ b.drop n }, n + (b.drop n).length)

/-- The loop of the input transformer, with `fuel` turns: a turn takes one rune
off `buf`, while the read buffer has room. -/
def inputLoop (maxBytes : ℕ) : ℕ → LineDiscipline → List UInt8 → ℕ → LineDiscipline × ℕ
  | 0, l, _, ret => (l, ret)
  | fuel + 1, l, buf, ret =>
    if buf = [] ∨ l.inQueue.readBuf.length ≥ canonMaxBytes then (l, ret)
    else
      let t := l.termios
      let (c, size) := l.peekRune buf
      if c = '\r' ∧ t.iEnabled IGNCR then inputLoop maxBytes fuel l (buf.drop size) (ret + size)
      else
        let c := if c = '\r' ∧ t.iEnabled ICRNL then '\n'
          else if c = '\n' ∧ t.iEnabled INLCR then '\r' else c
        -- in canonical mode, characters past the first 4095 are discarded
        if l.shouldDiscard l.inQueue c then inputLoop maxBytes fuel l (buf.drop size) (ret + size)
        -- stop if the buffer would be overfilled
        else if l.inQueue.readBuf.length + size > maxBytes then (l, ret)
        else
          let cBytes := buf.take size
          if t.lEnabled ICANON ∧ t.isEOF c then
            ({ l with inQueue := { l.inQueue with readable := true } }, ret + size)
          else
            let l := { l with inQueue := l.inQueue.write (String.utf8EncodeChar c) }
            -- the echo goes through the output queue, as the bytes written
            let l := if t.lEnabled ECHO then (writeBytesWith outputTransform .output l cBytes).1
              else l
            if t.lEnabled ICANON ∧ t.isTerminating c then
              ({ l with inQueue := { l.inQueue with readable := true } }, ret + size)
            else inputLoop maxBytes fuel l (buf.drop size) (ret + size)

def inputTransform (l : LineDiscipline) (buf : List UInt8) : LineDiscipline × ℕ :=
  let t := l.termios
  if t.lEnabled ICANON ∧ l.inQueue.readable then (l, 0)
  else
    let maxBytes := if t.lEnabled ICANON then canonMaxBytes else nonCanonMaxBytes
    let (l, ret) := inputLoop maxBytes (buf.length + 1) l buf 0
    -- in noncanonical mode everything is readable
    if !t.lEnabled ICANON ∧ l.inQueue.readBuf.length > 0 then
      ({ l with inQueue := { l.inQueue with readable := true } }, ret)
    else (l, ret)

/-- `queue.transform` of each queue. -/
def transform : Side → LineDiscipline → List UInt8 → LineDiscipline × ℕ
  | .input => inputTransform
  | .output => outputTransform

/-! ### Queue operations -/

def writeBytes (side : Side) : LineDiscipline → List UInt8 → LineDiscipline × ℕ :=
  writeBytesWith (transform side) side

def pushWaitBufLocked (side : Side) (l : LineDiscipline) : LineDiscipline × ℕ :=
  let (l', n) := transform side l (l.queue side).waitBuf
  let q := l'.queue side
  (l'.setQueue side { q with waitBuf := q.waitBuf.drop n }, n)

/-- `queue.read` into a destination with `room` bytes: the bytes read and
whether the wait buffer moved. -/
def read (side : Side) (l : LineDiscipline) (room : ℕ) :
    LineDiscipline × Except Errno (List UInt8 × Bool) :=
  let q := l.queue side
  if !q.readable then (l, .error .wouldBlock)
  else
    let n := min canonMaxBytes (min room q.readBuf.length)
    let out := q.readBuf.take n
    let q := { q with readBuf := q.readBuf.drop n }
    -- if everything was read, the queue is no longer readable
    let q := if q.readBuf.length = 0 then { q with readable := false } else q
    let (l, nPushed) := pushWaitBufLocked side (l.setQueue side q)
    (l, .ok (out, nPushed > 0))

def write (side : Side) (l : LineDiscipline) (src : List UInt8) :
    LineDiscipline × Except Errno ℕ :=
  let (l, c) := writeBytes side l src
  if c > 0 then (l, .ok c) else (l, .error .wouldBlock)

namespace LineDiscipline

/-- `inputQueueRead` and `outputQueueRead`. -/
def queueRead (side : Side) (l : LineDiscipline) (room : ℕ) :
    LineDiscipline × Except Errno (List UInt8) :=
  match read side l room with
  | (l, .error e) => (l, .error e)
  | (l, .ok (out, _)) => if out.length > 0 then (l, .ok out) else (l, .error .wouldBlock)

/-- `inputQueueWrite` and `outputQueueWrite`. -/
def queueWrite (side : Side) (l : LineDiscipline) (src : List UInt8) :
    LineDiscipline × Except Errno ℕ :=
  match write side l src with
  | (l, .error e) => (l, .error e)
  | (l, .ok n) => if n > 0 then (l, .ok n) else (l, .error .wouldBlock)

def inputQueueRead : LineDiscipline → ℕ → LineDiscipline × Except Errno (List UInt8) :=
  queueRead .input

def inputQueueWrite : LineDiscipline → List UInt8 → LineDiscipline × Except Errno ℕ :=
  queueWrite .input

def outputQueueRead : LineDiscipline → ℕ → LineDiscipline × Except Errno (List UInt8) :=
  queueRead .output

def outputQueueWrite : LineDiscipline → List UInt8 → LineDiscipline × Except Errno ℕ :=
  queueWrite .output

/-- `setTermios`: turning canonical mode off moves the input queue's wait
buffer in. -/
def setTermios (l : LineDiscipline) (t : KernelTermios) : LineDiscipline :=
  let oldCanonEnabled := l.termios.lEnabled ICANON
  let l := { l with termios := t }
  if oldCanonEnabled ∧ !t.lEnabled ICANON then (pushWaitBufLocked .input l).1 else l

end LineDiscipline

/-! ### The output queue leaves the input queue alone -/

section Frame

theorem outputLoop_frame :
    ∀ (fuel : ℕ) (l : LineDiscipline) (buf : List UInt8) (ret : ℕ),
      (outputLoop fuel l buf ret).1.inQueue = l.inQueue ∧
        (outputLoop fuel l buf ret).1.termios = l.termios := by
  intro fuel
  induction fuel with
  | zero => intro l buf ret; exact ⟨rfl, rfl⟩
  | succ fuel ih =>
    intro l buf ret
    rw [outputLoop]
    split_ifs
    · exact ⟨rfl, rfl⟩
    · exact ih _ _ _

/-- Echoing through the output queue changes neither the input queue nor the
termios. -/
theorem writeBytesWith_output_frame (l : LineDiscipline) (b : List UInt8) :
    (writeBytesWith outputTransform .output l b).1.inQueue = l.inQueue ∧
      (writeBytesWith outputTransform .output l b).1.termios = l.termios := by
  have htr : (outputTransform l b).1.inQueue = l.inQueue ∧
      (outputTransform l b).1.termios = l.termios := by
    rw [outputTransform]
    split_ifs
    · exact ⟨rfl, rfl⟩
    · exact outputLoop_frame _ _ _ _
  exact htr

end Frame

/-! ### Noncanonical input without `IUTF8` -/

section Bytes

variable {l : LineDiscipline}

/-- A flag cleared from a word is not enabled in it. -/
theorem enabled_cleared (x m : UInt32) (hm : m ≠ 0) : ((x &&& ~~~m) &&& m == m) = false := by
  rw [UInt32.and_assoc, UInt32.not_and_self, UInt32.and_zero]
  simpa using Ne.symm hm

theorem toChar_ne {b : UInt8} {c : Char} (h : b.toNat ≠ c.toNat) : b.toChar ≠ c := by
  intro heq
  apply h
  rw [← heq]
  exact (toNat_val_toChar b).symm

/-- One turn of the noncanonical input loop on a byte that is neither carriage
return nor newline: its rune's encoding is appended to the read buffer. -/
theorem inputLoop_byte (maxBytes fuel ret : ℕ) (rest : List UInt8) {b : UInt8}
    (hcanon : l.termios.lEnabled ICANON = false) (hutf : l.termios.iEnabled IUTF8 = false)
    (hcr : b.toNat ≠ 13) (hnl : b.toNat ≠ 10)
    (hroom : l.inQueue.readBuf.length + 1 ≤ maxBytes) (hmax : maxBytes < canonMaxBytes) :
    ∃ l', inputLoop maxBytes (fuel + 1) l (b :: rest) ret = inputLoop maxBytes fuel l' rest (ret + 1) ∧
      l'.inQueue = l.inQueue.write (String.utf8EncodeChar b.toChar) ∧ l'.termios = l.termios := by
  have hpeek : l.peekRune (b :: rest) = (b.toChar, 1) := by
    rw [LineDiscipline.peekRune, hutf]
    rfl
  have hcr' : b.toChar ≠ '\r' := toChar_ne hcr
  have hnl' : b.toChar ≠ '\n' := toChar_ne hnl
  have hdiscard : l.shouldDiscard l.inQueue b.toChar = false := by
    simp [LineDiscipline.shouldDiscard, hcanon]
  set l1 := { l with inQueue := l.inQueue.write (String.utf8EncodeChar b.toChar) } with hl1
  set l2 := if l.termios.lEnabled ECHO then (writeBytesWith outputTransform .output l1 [b]).1
    else l1 with hl2
  have hframe : l2.inQueue = l1.inQueue ∧ l2.termios = l1.termios := by
    rw [hl2]
    split_ifs
    · exact writeBytesWith_output_frame l1 [b]
    · exact ⟨rfl, rfl⟩
  refine ⟨l2, ?_, hframe.1, hframe.2⟩
  rw [inputLoop, if_neg (by simp; omega), hpeek]
  simp only [hcr', hnl', false_and, if_false, hdiscard, Bool.false_eq_true,
    show ¬l.inQueue.readBuf.length + 1 > maxBytes by omega, hcanon, List.drop_succ_cons,
    List.drop_zero, List.take_succ_cons, List.take_zero]
  rfl

theorem inputLoop_nil (maxBytes fuel : ℕ) (l : LineDiscipline) (ret : ℕ) :
    inputLoop maxBytes fuel l [] ret = (l, ret) := by
  cases fuel <;> simp [inputLoop]

/-- A noncanonical transform of nothing leaves an empty input queue as it is. -/
theorem inputTransform_nil (hcanon : l.termios.lEnabled ICANON = false)
    (hempty : l.inQueue.readBuf = []) : inputTransform l [] = (l, 0) := by
  simp [inputTransform, inputLoop, hcanon, hempty]

/-- A write the input transformer takes whole returns its length and leaves
nothing waiting. -/
theorem inputQueueWrite_of_transform {b : List UInt8} {l' : LineDiscipline}
    (h : inputTransform l b = (l', b.length)) (hpos : 0 < b.length) :
    l.inputQueueWrite b = (l', .ok b.length) := by
  simp only [LineDiscipline.inputQueueWrite, LineDiscipline.queueWrite, write, writeBytes,
    writeBytesWith, transform, h, LineDiscipline.queue, LineDiscipline.setQueue,
    List.drop_length, List.length_nil, Nat.add_zero, List.append_nil, if_pos hpos]

/-- A noncanonical read with room for the whole read buffer, with nothing
waiting, takes the buffer and leaves the input queue empty. -/
theorem inputQueueRead_drain (hcanon : l.termios.lEnabled ICANON = false)
    {bytes : List UInt8} {room : ℕ} (hq : l.inQueue = ⟨bytes, [], true⟩)
    (hpos : 0 < bytes.length) (hroom : bytes.length ≤ room) (hmax : bytes.length ≤ canonMaxBytes) :
    l.inputQueueRead room = ({ l with inQueue := ⟨[], [], false⟩ }, .ok bytes) := by
  have hmin : min canonMaxBytes (min room bytes.length) = bytes.length := by omega
  simp only [LineDiscipline.inputQueueRead, LineDiscipline.queueRead, read,
    LineDiscipline.queue, hq, pushWaitBufLocked, transform, LineDiscipline.setQueue, hmin,
    List.drop_length, List.take_length, List.length_nil, if_true, Bool.not_true,
    Bool.false_eq_true, if_false]
  rw [inputTransform_nil (l := { l with inQueue := ⟨[], [], false⟩ }) hcanon rfl]
  simp [hpos]

end Bytes

/-- Without `IUTF8` and in noncanonical mode, whatever the other flags and the
control characters, a byte from `0x80` on written to a new input queue is read
back as the two bytes of its rune's UTF-8 encoding. -/
theorem inputQueue_reencodes_byte (iflag oflag lflag : UInt32) (cc : Vector UInt8 19)
    (b : UInt8) (room : ℕ) :
    let l := newLineDiscipline ⟨iflag &&& ~~~IUTF8, oflag, lflag &&& ~~~ICANON, cc⟩
    (l.inputQueueWrite [b ||| 0x80]).2 = .ok 1 ∧
      ((l.inputQueueWrite [b ||| 0x80]).1.inputQueueRead (room + 2)).2 =
        .ok (String.utf8EncodeChar (b ||| 0x80).toChar) ∧
      (String.utf8EncodeChar (b ||| 0x80).toChar).length = 2 := by
  intro l
  have hcanon : l.termios.lEnabled ICANON = false := enabled_cleared _ _ (by decide)
  have hutf : l.termios.iEnabled IUTF8 = false := enabled_cleared _ _ (by decide)
  have hhigh : 0x80 ≤ b ||| 0x80 := UInt8.right_le_or
  have hB := UInt8.le_iff_toNat_le.mp hhigh
  have hlen := length_utf8EncodeChar_toChar_of_le hhigh
  simp only [UInt8.reduceToNat] at hB
  have hempty : l.inQueue = Queue.empty := rfl
  obtain ⟨l1, hloop, hin1, ht1⟩ := inputLoop_byte nonCanonMaxBytes 1 0 [] hcanon hutf
    (show (b ||| 0x80).toNat ≠ 13 by omega) (show (b ||| 0x80).toNat ≠ 10 by omega)
    (by rw [hempty]; decide) (by decide)
  rw [hempty] at hin1
  -- the write: the byte's rune goes to the read buffer, which becomes readable
  have hread1 : l1.inQueue.readBuf.length > 0 := by
    rw [hin1]
    simp [Queue.write, Queue.empty, hlen]
  have htr : inputTransform l [b ||| 0x80] =
      ({ l1 with inQueue := { l1.inQueue with readable := true } }, [b ||| 0x80].length) := by
    rw [inputTransform]
    simp only [hcanon, Bool.false_eq_true, false_and, if_false, List.length_cons,
      List.length_nil]
    rw [hloop, inputLoop_nil, if_pos ⟨rfl, hread1⟩]
  rw [inputQueueWrite_of_transform htr (by simp)]
  -- the read: both bytes come out, and nothing is waiting to move in
  have hcanon1 : ({ l1 with inQueue := { l1.inQueue with readable := true } } :
      LineDiscipline).termios.lEnabled ICANON = false := by
    rw [← hcanon, ← ht1]
  have hq : ({ l1 with inQueue := { l1.inQueue with readable := true } } : LineDiscipline).inQueue =
      ⟨String.utf8EncodeChar (b ||| 0x80).toChar, [], true⟩ := by
    rw [hin1]
    rfl
  rw [inputQueueRead_drain hcanon1 hq (by omega) (by omega) (by rw [hlen]; decide)]
  exact ⟨rfl, rfl, hlen⟩

end ContainerFS.Tty
