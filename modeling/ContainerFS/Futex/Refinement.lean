import Mathlib
import ContainerFS.Futex.Manager

/-!
The futex manager against per-futex FIFO wait queues. A futex is a bucket and
a key; its queue is the bucket's list filtered by the key, so the waiters of
other futexes that share the bucket are invisible to it. `State.queues` is the
abstract value of a state, a `QueueMap`.

The scans of `wakeLocked` and `requeueLocked` are first read as `pickFirst` on
the part of the bucket ahead of the cursor (`wakeFrom_split`,
`requeueFrom_split`); the queue of the key scanned is then `pickFirst` on that
queue alone, and every other queue of the bucket is left as it was.
-/

namespace ContainerFS.Futex

open ContainerFS.Queues

/-! ### The scans -/

namespace State

/-- The state after the waiters `ws` were woken from bucket `b`, which keeps `l`. -/
def afterWake (s : State) (b : BucketId) (l ws : List Waiter) : State :=
  { s with
    buckets := Function.update s.buckets b l
    woken := s.woken ++ ws.map Waiter.id
    bucket := ws.foldl (fun f w => Function.update f w.id none) s.bucket }

@[simp]
theorem afterWake_buckets_self (s : State) (b : BucketId) (l ws : List Waiter) :
    (s.afterWake b l ws).buckets b = l := by
  simp [afterWake]

theorem afterWake_nil (s : State) (b : BucketId) : s.afterWake b (s.buckets b) [] = s := by
  cases s
  simp [afterWake]

theorem wakeWaiterLocked_afterWake (s : State) (b : BucketId) (j : ℕ) (w : Waiter)
    (l ws : List Waiter) :
    (s.afterWake b l ws).wakeWaiterLocked b j w = s.afterWake b (l.eraseIdx j) (ws ++ [w]) := by
  simp [afterWake, wakeWaiterLocked]

/-- The scan of `wakeLocked` from the end of `pre` wakes the waiters that
`pickFirst` takes from what follows. -/
theorem wakeFrom_split (s : State) (b : BucketId) (key : Key) (bitmask : UInt32) (n : ℕ) :
    ∀ pre l ws : List Waiter,
      wakeFrom b key bitmask n pre.length (s.afterWake b (pre ++ l) ws) =
        (s.afterWake b (pre ++ (pickFirst (wakes key bitmask) n l).1)
          (ws ++ (pickFirst (wakes key bitmask) n l).2),
          (pickFirst (wakes key bitmask) n l).2.length) := by
  induction n with
  | zero => intro pre l ws; simp [wakeFrom]
  | succ n ih =>
    intro pre l ws
    rcases forall_or_split (wakes key bitmask) l with hl | ⟨mid, a, suf, rfl, hmid, ha⟩
    · -- nothing ahead of the cursor is woken: the scan runs off the end
      simp [wakeFrom, findFrom_of_forall _ pre hl, pickFirst_of_forall _ hl]
    · have hfind := findFrom_append_cons (wakes key bitmask) pre hmid ha suf
      have hpick := pickFirst_append_of_forall (wakes key bitmask) hmid (n + 1) (a :: suf)
      rw [pickFirst_cons_of_pos _ ha] at hpick
      rw [← List.append_assoc]
      simp only [wakeFrom, afterWake_buckets_self, hfind, wakeWaiterLocked_afterWake,
        eraseIdx_at_cursor]
      split
      · -- the woken waiter was the last: `w.Next()` is nil
        rename_i hlast
        obtain rfl := eq_nil_of_cursor_last hlast
        simp [hpick]
      · have := ih (pre ++ mid) suf (ws ++ [a])
        rw [List.length_append] at this
        rw [this, hpick]
        simp

/-- The state after the waiters `ws` left bucket `b`, which keeps `l`, for the
back of `toBucket` with the key `nkey`. -/
def afterMove (s : State) (b toBucket : BucketId) (nkey : Key) (l ws : List Waiter) : State :=
  let bs := Function.update s.buckets b l
  { s with
    buckets := Function.update bs toBucket (bs toBucket ++ ws.map fun w => { w with key := nkey })
    bucket := ws.foldl (fun f w => Function.update f w.id (some toBucket)) s.bucket }

theorem afterMove_nil (s : State) (b toBucket : BucketId) (nkey : Key) :
    s.afterMove b toBucket nkey (s.buckets b) [] = s := by
  cases s
  simp [afterMove]

/-- What bucket `b` holds after a move: what it keeps, and the moved waiters
when they came back to it. -/
theorem afterMove_buckets_self (s : State) (b toBucket : BucketId) (nkey : Key)
    (l ws : List Waiter) :
    (s.afterMove b toBucket nkey l ws).buckets b =
      l ++ if b = toBucket then ws.map (fun w => { w with key := nkey }) else [] := by
  by_cases h : b = toBucket
  · subst h
    simp [afterMove]
  · simp [afterMove, h]

theorem moveWaiter_afterMove (s : State) (b toBucket : BucketId) (nkey : Key) {l : List Waiter}
    {j : ℕ} (hj : j < l.length) (ws : List Waiter) (w : Waiter) :
    (s.afterMove b toBucket nkey l ws).moveWaiter b toBucket j w nkey =
      s.afterMove b toBucket nkey (l.eraseIdx j) (ws ++ [w]) := by
  by_cases h : b = toBucket
  · subst h
    simp [afterMove, moveWaiter, pushBack, List.eraseIdx_append_of_lt_length hj]
  · simp only [afterMove, moveWaiter, pushBack, State.mk.injEq]
    refine ⟨?_, by simp, trivial, trivial⟩
    funext x
    by_cases hx : x = toBucket
    · subst hx
      simp [Function.update_of_ne (Ne.symm h)]
    · by_cases hxb : x = b
      · subst hxb
        simp [h]
      · simp [hx, hxb]

/-- The scan of `requeueLocked` from the end of `pre` moves the waiters that
`pickFirst` takes from what follows, when the waiters it moves into the same
bucket no longer match. -/
theorem requeueFrom_split (s : State) (b toBucket : BucketId) {key nkey : Key}
    (hkey : b = toBucket → nkey ≠ key) (n : ℕ) :
    ∀ pre l ws : List Waiter,
      requeueFrom b toBucket key nkey n pre.length (s.afterMove b toBucket nkey (pre ++ l) ws) =
        (s.afterMove b toBucket nkey (pre ++ (pickFirst (fun w => w.key.matches key) n l).1)
          (ws ++ (pickFirst (fun w => w.key.matches key) n l).2),
          (pickFirst (fun w => w.key.matches key) n l).2.length) := by
  induction n with
  | zero => intro pre l ws; simp [requeueFrom]
  | succ n ih =>
    intro pre l ws
    -- the waiters moved back into the scanned bucket, behind the cursor's part
    obtain ⟨tail, hbs, htail⟩ : ∃ tail,
        (s.afterMove b toBucket nkey (pre ++ l) ws).buckets b = pre ++ (l ++ tail) ∧
          ∀ x ∈ tail, x.key.matches key = false := by
      refine ⟨_, by rw [afterMove_buckets_self, List.append_assoc], ?_⟩
      intro x hx
      by_cases h : b = toBucket
      · simp only [h, if_true, List.mem_map] at hx
        obtain ⟨w, -, rfl⟩ := hx
        exact Bool.eq_false_iff.mpr fun h' => hkey h (Key.matches_iff.mp h')
      · simp [h] at hx
    rcases forall_or_split (fun w : Waiter => w.key.matches key) l
      with hl | ⟨mid, a, suf, rfl, hmid, ha⟩
    · -- nothing ahead of the cursor matches, nor does anything moved back
      have hall : ∀ x ∈ l ++ tail, x.key.matches key = false := by
        intro x hx
        rcases List.mem_append.mp hx with hx | hx
        · exact hl x hx
        · exact htail x hx
      simp [requeueFrom, hbs, findFrom_of_forall _ pre hall, pickFirst_of_forall _ hl]
    · have hfind := findFrom_append_cons (fun w : Waiter => w.key.matches key) pre hmid ha
        (suf ++ tail)
      have hpick := pickFirst_append_of_forall (fun w : Waiter => w.key.matches key) hmid (n + 1)
        (a :: suf)
      rw [pickFirst_cons_of_pos (fun w : Waiter => w.key.matches key) ha] at hpick
      have hj : pre.length + mid.length < (pre ++ mid ++ a :: suf).length := by simp
      rw [show pre ++ (mid ++ a :: suf ++ tail) = pre ++ mid ++ a :: (suf ++ tail) by simp] at hbs
      rw [← List.append_assoc pre mid (a :: suf)] at hbs ⊢
      simp only [requeueFrom, hbs, hfind, moveWaiter_afterMove s b toBucket nkey hj,
        eraseIdx_at_cursor]
      split
      · -- the moved waiter was the last: `w.Next()` is nil
        rename_i hlast
        obtain ⟨rfl, -⟩ := List.append_eq_nil_iff.mp (eq_nil_of_cursor_last hlast)
        simp [hpick]
      · have := ih (pre ++ mid) suf (ws ++ [a])
        rw [List.length_append] at this
        rw [this, hpick]
        simp

end State

/-! ### Queues -/

/-- The futex that the `m`-th manager's operations on the key `k` act on: the
bucket that `lockBucket` picks, and the key. -/
def futexOf (m : ℕ) (k : Key) : BucketId × Key := (lockBucket m k, k)

namespace State

/-- The abstract value of a state: the FIFO queue of every futex, read off its
bucket in the bucket's order. -/
def queues (s : State) : QueueMap (BucketId × Key) Waiter :=
  fun f => (s.buckets f.1).filter (·.key.matches f.2)

theorem queues_of_buckets {s t : State} {b : BucketId} {l : List Waiter}
    (h : t.buckets = Function.update s.buckets b l) :
    t.queues = fun f => if f.1 = b then l.filter (·.key.matches f.2) else s.queues f := by
  funext f
  by_cases hf : f.1 = b <;> simp [queues, h, hf]

theorem queues_afterWake (s : State) (b : BucketId) (l ws : List Waiter) :
    (s.afterWake b l ws).queues =
      fun f => if f.1 = b then l.filter (·.key.matches f.2) else s.queues f :=
  queues_of_buckets rfl

/-- Waiting on `k` after a requeue: the moved waiters, all of key `k2`, are
seen by `k2` alone. -/
theorem filter_map_setKey (ws : List Waiter) (k2 k : Key) :
    (ws.map fun w => { w with key := k2 }).filter (·.key.matches k) =
      if k2 = k then ws.map fun w => { w with key := k2 } else [] := by
  by_cases h : k2 = k
  · subst h
    simp [List.filter_eq_self]
  · simp [h]

/-- A wake-up in the bucket of `k` acts on the queue of `k` alone: it takes
from it what `pickFirst` takes, and every other queue is left as it was. -/
theorem queues_pickFirst (s : State) (b : BucketId) (k : Key) (bitmask : UInt32) (n : ℕ) :
    (fun f : BucketId × Key => if f.1 = b then
        (pickFirst (wakes k bitmask) n (s.buckets b)).1.filter (·.key.matches f.2) else s.queues f) =
      Function.update s.queues (b, k)
        (pickFirst (fun w => w.bitmask &&& bitmask != 0) n (s.queues (b, k))).1 := by
  funext f
  obtain ⟨b', k'⟩ := f
  by_cases hb : b' = b
  · subst hb
    by_cases hk : k' = k
    · subst hk
      simp only [if_true, Function.update_self]
      exact (filter_pickFirst_and (fun w : Waiter => w.key.matches k')
        (fun w => w.bitmask &&& bitmask != 0) n (s.buckets b')).1
    · -- the waiters woken all wait on `k`, none on `k'`
      have hdis : ∀ w, wakes k bitmask w = true → w.key.matches k' = false := by
        intro w hw
        simp only [wakes, Bool.and_eq_true, Key.matches_iff] at hw
        rw [hw.1]
        exact Bool.eq_false_iff.mpr fun h => hk (Key.matches_iff.mp h).symm
      simp only [if_true, Function.update_of_ne (by simp [hk] : (b', k') ≠ (b', k))]
      exact filter_pickFirst_of_disjoint hdis n _
  · simp [hb]

/-- `wakeLocked` on the bucket of `k` is `QueueMap.wake` on the queue of `k`,
with the wake-ups recorded in order. -/
theorem wakeLocked_queues (s : State) (m : ℕ) (k : Key) (bitmask : UInt32) (n : ℤ) :
    let r := QueueMap.wake s.queues (futexOf m k) (fun w => w.bitmask &&& bitmask != 0) n.toNat
    (s.wakeLocked (lockBucket m k) k bitmask n).1.queues = r.1 ∧
      (s.wakeLocked (lockBucket m k) k bitmask n).1.woken = s.woken ++ r.2.map Waiter.id ∧
      (s.wakeLocked (lockBucket m k) k bitmask n).2 = r.2.length := by
  intro r
  have hsplit := wakeFrom_split s (lockBucket m k) k bitmask n.toNat [] (s.buckets (lockBucket m k)) []
  simp only [List.length_nil, List.nil_append, afterWake_nil] at hsplit
  have htaken := (filter_pickFirst_and (fun w : Waiter => w.key.matches k)
    (fun w => w.bitmask &&& bitmask != 0) n.toNat (s.buckets (lockBucket m k))).2
  simp only [wakeLocked, hsplit]
  refine ⟨?_, ?_, ?_⟩
  · rw [queues_afterWake]
    exact queues_pickFirst s (lockBucket m k) k bitmask n.toNat
  · simp only [afterWake, r, QueueMap.wake, futexOf, queues]
    rw [← htaken]
    rfl
  · simp only [r, QueueMap.wake, futexOf, queues]
    rw [← htaken]
    rfl

theorem queues_afterMove (s : State) (b toBucket : BucketId) (nkey : Key) (l ws : List Waiter) :
    (s.afterMove b toBucket nkey l ws).queues = fun f =>
      if f.1 = toBucket then
        (Function.update s.buckets b l toBucket ++ ws.map fun w : Waiter => { w with key := nkey }).filter
          (·.key.matches f.2)
      else if f.1 = b then l.filter (·.key.matches f.2) else s.queues f := by
  funext f
  by_cases ht : f.1 = toBucket
  · simp [queues, afterMove, ht]
  · by_cases hb : f.1 = b
    · have hbt : b ≠ toBucket := hb ▸ ht
      simp [queues, afterMove, hb, hbt]
    · simp [queues, afterMove, ht, hb]

/-- Moving waiters between buckets wakes none of them. -/
theorem requeueFrom_woken (b toBucket : BucketId) (key nkey : Key) (n i : ℕ) (s : State) :
    (requeueFrom b toBucket key nkey n i s).1.woken = s.woken := by
  -- induction on the moves left, each a `moveWaiter`, which leaves `woken`
  induction n generalizing i s with
  | zero => rfl
  | succ n ih =>
    simp only [requeueFrom]
    split
    · rfl
    · split
      · rfl
      · exact ih _ _

/-- `requeueLocked` from the bucket of `k1` to that of another key `k2` is
`QueueMap.requeue` between their queues. -/
theorem requeueFrom_queues (s : State) (b1 b2 : BucketId) {k1 k2 : Key} (hne : k1 ≠ k2)
    (n : ℕ) :
    (requeueFrom b1 b2 k1 k2 n 0 s).1.queues =
      QueueMap.requeue s.queues (b1, k1) (b2, k2) (fun w => { w with key := k2 }) n := by
  have hsplit := requeueFrom_split s b1 b2 (fun _ => Ne.symm hne) n [] (s.buckets b1) []
  simp only [List.length_nil, List.nil_append, afterMove_nil] at hsplit
  -- what stays of the queue of `k1`, what moves, and the other queues
  have hstay : (pickFirst (fun w : Waiter => w.key.matches k1) n (s.buckets b1)).1.filter
      (·.key.matches k1) = (s.queues (b1, k1)).drop n := by
    have h := (filter_pickFirst_and (fun w : Waiter => w.key.matches k1) (fun _ => true) n
      (s.buckets b1)).1
    simp only [Bool.and_true] at h
    rw [h, pickFirst_of_forall_pos (fun _ _ => rfl)]
    rfl
  have hmove : (pickFirst (fun w : Waiter => w.key.matches k1) n (s.buckets b1)).2 =
      (s.queues (b1, k1)).take n := pickFirst_snd _ _ _
  have hkeep : ∀ f : BucketId × Key, f ≠ (b1, k1) →
      (Function.update s.buckets b1
        (pickFirst (fun w : Waiter => w.key.matches k1) n (s.buckets b1)).1 f.1).filter
          (·.key.matches f.2) = s.queues f := by
    rintro ⟨b', k'⟩ hf
    by_cases hb : b' = b1
    · subst hb
      have hk : k' ≠ k1 := fun hk => hf (by rw [hk])
      simp only [Function.update_self]
      refine filter_pickFirst_of_disjoint (fun w hw => ?_) n _
      simp only [Key.matches_iff] at hw
      rw [hw]
      exact Bool.eq_false_iff.mpr fun h => hk (Key.matches_iff.mp h).symm
    · simp [queues, hb]
  have hf : ((b2, k2) : BucketId × Key) ≠ (b1, k1) := fun h => hne (congrArg Prod.snd h).symm
  rw [hsplit, queues_afterMove]
  funext f
  obtain ⟨b', k'⟩ := f
  simp only [QueueMap.requeue, Function.update_of_ne hf]
  by_cases h2 : (b', k') = (b2, k2)
  · -- the queue of `k2` gains the moved waiters at its tail
    obtain ⟨rfl, rfl⟩ := Prod.mk.inj h2
    simp only [if_true, Function.update_self, List.filter_append, filter_map_setKey]
    rw [hkeep (b', k') hf, hmove]
  · rw [Function.update_of_ne h2]
    by_cases h1 : (b', k') = (b1, k1)
    · -- the queue of `k1` keeps what was not moved
      obtain ⟨rfl, rfl⟩ := Prod.mk.inj h1
      simp only [Function.update_self]
      by_cases hb : b' = b2
      · subst hb
        simp [List.filter_append, filter_map_setKey, hne.symm, hstay]
      · simp [hb, hstay]
    · -- every other queue is left as it was
      rw [Function.update_of_ne h1]
      by_cases hb : b' = b2
      · subst hb
        have hk : k2 ≠ k' := fun hk => h2 (by rw [hk])
        simp only [if_true, List.filter_append, filter_map_setKey, hk, if_false, List.append_nil]
        exact hkeep (b', k') h1
      · by_cases hb1 : b' = b1
        · subst hb1
          simp only [hb, if_false, if_true]
          simpa using hkeep (b', k') h1
        · simp [hb, hb1]

theorem check_eq_ok {s : State} {addr : UInt64} {val : UInt32} :
    s.check addr val = .ok () ↔ s.loadUint32 addr = .ok val := by
  unfold check
  cases s.loadUint32 addr with
  | error e => simp [bind, Except.bind]
  | ok cur =>
    by_cases h : cur = val
    · simp [h, bind, Except.bind, pure, Except.pure]
    · simp [h, bind, Except.bind, throw, throwThe, MonadExceptOf.throw]

end State

/-! ### The operations of the manager -/

/-- A memory manager with no shared mappings: `GetSharedKey` faults. -/
def noSharedKeys : UInt64 → Except Errno Key := fun _ => .error .efault

/-- No waiter is queued; the word at 4 holds 0, and the word at 4096 holds 7:
thread 7 owns the PI futex there. -/
def idleState : State :=
  ⟨fun _ => [], fun _ => none, [], fun a => if a = 4 then some 0 else if a = 4096 then some 7 else none⟩

/-- Waiters 1 and 2, of threads 11 and 12, wait on the private futex at 4, in
that order. Addresses 4 and 4096 share the private bucket 1. -/
def twoWaiters : State :=
  ((idleState.waitPrepare noSharedKeys 0 ⟨1, ⟨.kindPrivate, none, 0⟩, 0, 11⟩ 4 true 0
      0xffffffff).1.waitPrepare noSharedKeys 0 ⟨2, ⟨.kindPrivate, none, 0⟩, 0, 12⟩ 4 true 0
    0xffffffff).1

section Manager

variable (getSharedKey : UInt64 → Except Errno Key)

namespace State

/-- `Wake` on an address whose key is `k` is `QueueMap.wake` on the queue of
`k`: the first waiters of that queue whose bitmask meets `bitmask`, up to `n`,
are taken out and sent to in order, and their number is returned; every other
waiter stays where it was. -/
theorem wake_refines (s : State) (m : ℕ) {addr : UInt64} {isPrivate : Bool} {k : Key}
    (hk : getKey getSharedKey addr isPrivate = .ok k) (bitmask : UInt32) (n : ℤ) :
    let r := QueueMap.wake s.queues (futexOf m k) (fun w => w.bitmask &&& bitmask != 0) n.toNat
    (s.wake getSharedKey m addr isPrivate bitmask n).1.queues = r.1 ∧
      (s.wake getSharedKey m addr isPrivate bitmask n).1.woken = s.woken ++ r.2.map Waiter.id ∧
      (s.wake getSharedKey m addr isPrivate bitmask n).2 =
        .ok (min n.toNat ((s.queues (futexOf m k)).countP fun w => w.bitmask &&& bitmask != 0)) := by
  intro r
  obtain ⟨hqueues, hwoken, hcount⟩ := wakeLocked_queues s m k bitmask n
  simp only [wake, hk]
  refine ⟨hqueues, hwoken, ?_⟩
  -- the number woken is what `pickFirst` takes from the queue
  rw [hcount]
  simp only [QueueMap.wake, length_pickFirst_snd]

theorem wake_refines_twoWaiters :
    getKey noSharedKeys 4 true = .ok ⟨.kindPrivate, none, 4⟩ ∧
      let r := QueueMap.wake twoWaiters.queues (futexOf 0 ⟨.kindPrivate, none, 4⟩)
        (fun w => w.bitmask &&& 1 != 0) (1 : ℤ).toNat
      (twoWaiters.wake noSharedKeys 0 4 true 1 1).1.queues = r.1 ∧
        (twoWaiters.wake noSharedKeys 0 4 true 1 1).1.woken = twoWaiters.woken ++ r.2.map Waiter.id ∧
        (twoWaiters.wake noSharedKeys 0 4 true 1 1).2 =
          .ok (min (1 : ℤ).toNat ((twoWaiters.queues (futexOf 0 ⟨.kindPrivate, none, 4⟩)).countP
            fun w => w.bitmask &&& 1 != 0)) :=
  ⟨rfl, wake_refines noSharedKeys twoWaiters 0 rfl 1 1⟩

/-- `Requeue` and `RequeueCmp` between two futexes with different keys, once
the value check passes, are `QueueMap.wake` on the first queue followed by
`QueueMap.requeue` to the second, with the moved waiters' key replaced; they
return the number woken. -/
theorem doRequeue_refines (s : State) (m : ℕ) {addr naddr : UInt64} {isPrivate : Bool}
    {k1 k2 : Key} (hk1 : getKey getSharedKey addr isPrivate = .ok k1)
    (hk2 : getKey getSharedKey naddr isPrivate = .ok k2) (hne : k1 ≠ k2) {checkval : Bool}
    {val : UInt32} (hcheck : checkval = true → s.loadUint32 addr = .ok val) (nwake nreq : ℤ) :
    let r := QueueMap.wake s.queues (futexOf m k1) (fun w => w.bitmask &&& 0xffffffff != 0)
      nwake.toNat
    (s.doRequeue getSharedKey m addr naddr isPrivate checkval val nwake nreq).1.queues =
        QueueMap.requeue r.1 (futexOf m k1) (futexOf m k2) (fun w => { w with key := k2 })
          nreq.toNat ∧
      (s.doRequeue getSharedKey m addr naddr isPrivate checkval val nwake nreq).1.woken =
        s.woken ++ r.2.map Waiter.id ∧
      (s.doRequeue getSharedKey m addr naddr isPrivate checkval val nwake nreq).2 =
        .ok r.2.length := by
  intro r
  have hc : (if checkval then s.check addr val else .ok ()) = .ok () := by
    cases checkval with
    | false => rfl
    | true => exact check_eq_ok.mpr (hcheck rfl)
  obtain ⟨hqueues, hwoken, hcount⟩ := wakeLocked_queues s m k1 0xffffffff nwake
  simp only [doRequeue, hk1, hk2, lockBuckets_eq, hc, requeueLocked]
  refine ⟨?_, by rw [requeueFrom_woken, hwoken], by rw [hcount]⟩
  rw [requeueFrom_queues _ _ _ hne, hqueues]
  rfl

theorem doRequeue_refines_twoWaiters :
    getKey noSharedKeys 4 true = .ok ⟨.kindPrivate, none, 4⟩ ∧
      getKey noSharedKeys 4096 true = .ok ⟨.kindPrivate, none, 4096⟩ ∧
      (⟨.kindPrivate, none, 4⟩ : Key) ≠ ⟨.kindPrivate, none, 4096⟩ ∧
      (true = true → twoWaiters.loadUint32 4 = .ok 0) ∧
      let r := QueueMap.wake twoWaiters.queues (futexOf 0 ⟨.kindPrivate, none, 4⟩)
        (fun w => w.bitmask &&& 0xffffffff != 0) (0 : ℤ).toNat
      (twoWaiters.doRequeue noSharedKeys 0 4 4096 true true 0 0 1).1.queues =
          QueueMap.requeue r.1 (futexOf 0 ⟨.kindPrivate, none, 4⟩)
            (futexOf 0 ⟨.kindPrivate, none, 4096⟩)
            (fun w => { w with key := ⟨.kindPrivate, none, 4096⟩ }) (1 : ℤ).toNat ∧
        (twoWaiters.doRequeue noSharedKeys 0 4 4096 true true 0 0 1).1.woken =
          twoWaiters.woken ++ r.2.map Waiter.id ∧
        (twoWaiters.doRequeue noSharedKeys 0 4 4096 true true 0 0 1).2 = .ok r.2.length := by
  have hne : (⟨.kindPrivate, none, 4⟩ : Key) ≠ ⟨.kindPrivate, none, 4096⟩ := by decide
  have hload : true = true → twoWaiters.loadUint32 4 = .ok 0 := fun _ => rfl
  exact ⟨rfl, rfl, hne, hload, doRequeue_refines noSharedKeys twoWaiters 0 rfl rfl hne hload 0 1⟩

end State

end Manager

/-! ### Requeueing a futex onto itself, and handing a PI lock on -/

namespace State

/-- When every waiter of bucket `b` waits on `key` and there are at least two,
`requeueLocked` from `b` to `b` with the same key rotates the bucket by `n`:
the scan meets each waiter it moved again at the back. -/
theorem requeueFrom_self_rotate (b : BucketId) (key : Key) (n : ℕ) :
    ∀ s : State, (∀ w ∈ s.buckets b, w.key = key) → 2 ≤ (s.buckets b).length →
      (requeueFrom b b key key n 0 s).1.buckets b = (s.buckets b).rotate n ∧
        (requeueFrom b b key key n 0 s).2 = n := by
  induction n with
  | zero => intro s _ _; simp [requeueFrom]
  | succ n ih =>
    intro s hkeys hlen
    obtain ⟨a, rest, hbs⟩ : ∃ a rest, s.buckets b = a :: rest :=
      List.exists_cons_of_length_pos (by omega)
    have ha : a.key = key := hkeys a (by simp [hbs])
    have hfind : findFrom (fun w : Waiter => w.key.matches key) (s.buckets b) 0 = some (0, a) := by
      simpa [hbs] using @findFrom_append_cons _ (fun w : Waiter => w.key.matches key) [] []
        (by simp) a (by simp [ha]) rest
    have hlast : ¬(0 + 1 = (s.buckets b).length) := by omega
    -- the front waiter goes to the back, unchanged since its key is already `key`
    have hmoved : (s.moveWaiter b b 0 a key).buckets b = rest ++ [a] := by
      have hsame : ({ a with key := key } : Waiter) = a := by
        cases a
        cases ha
        rfl
      simp [moveWaiter, pushBack, hbs, hsame]
    have hkeys' : ∀ w ∈ (s.moveWaiter b b 0 a key).buckets b, w.key = key := by
      intro w hw
      rw [hmoved] at hw
      exact hkeys w (by rw [hbs]; simp at hw ⊢; tauto)
    have hlen' : 2 ≤ ((s.moveWaiter b b 0 a key).buckets b).length := by
      rw [hmoved]
      simp only [hbs, List.length_cons] at hlen
      simp
      omega
    obtain ⟨hrot, hcount⟩ := ih _ hkeys' hlen'
    simp only [requeueFrom, hfind, hlast, if_false]
    rw [hrot, hmoved, hbs, List.rotate_cons_succ, hcount]
    exact ⟨rfl, rfl⟩

end State

/-- Two runs from `twoWaiters` that leave the per-futex queues. `Requeue(4, 4,
0, 3)` puts the two waiters of address 4 in the other order, where moving
both, in order, to the tail of their own queue leaves them as they were.
`UnlockPI(4096)` by its owner, thread 7, with no waiter on 4096, gives the
lock to thread 11 and wakes its waiter, which waits on address 4. -/
theorem requeue_self_unlockPI_bucket :
    ((twoWaiters.requeue noSharedKeys 0 4 4 true 0 3).1.queues
        (futexOf 0 ⟨.kindPrivate, none, 4⟩)).map Waiter.id = [2, 1] ∧
    ((QueueMap.wake twoWaiters.queues (futexOf 0 ⟨.kindPrivate, none, 4⟩)
          (fun w => w.bitmask &&& 0xffffffff != 0) 0).1.requeue
        (futexOf 0 ⟨.kindPrivate, none, 4⟩) (futexOf 0 ⟨.kindPrivate, none, 4⟩)
        (fun w => { w with key := ⟨.kindPrivate, none, 4⟩ }) 3
        (futexOf 0 ⟨.kindPrivate, none, 4⟩)).map Waiter.id = [1, 2] ∧
    twoWaiters.queues (futexOf 0 ⟨.kindPrivate, none, 4096⟩) = [] ∧
    (twoWaiters.unlockPI noSharedKeys 0 4096 7 true).1.woken = [1] ∧
    (twoWaiters.unlockPI noSharedKeys 0 4096 7 true).1.mem 4096 = some (11 ||| futexWaiters) ∧
    ((twoWaiters.unlockPI noSharedKeys 0 4096 7 true).1.queues
        (futexOf 0 ⟨.kindPrivate, none, 4⟩)).map Waiter.id = [2] := by
  decide +kernel

end ContainerFS.Futex
