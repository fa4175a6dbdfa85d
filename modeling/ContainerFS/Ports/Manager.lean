import Mathlib.Data.Finmap
import Mathlib.Data.List.Range

/-!
The port manager of the network stack (`tcpip/ports/ports.go`).

`PickEphemeralPort` walks the ephemeral ports from a random offset, handing
each to a caller's `testPort`; its loop index and offset are `uint16`s, so
`offset + i` wraps at `2^16` before the `% count` that should rotate it through
`[0, count)`. The walk is a rotation of the ephemeral range exactly when
`offset ≤ 16000`; from `offset = 16001` on some ports are tested twice and
others never (`pickEphemeralPort_skips_port`).

`ReservePort` and `ReleasePort` keep, per port descriptor, a map from bound
addresses to a node counting its references. The calls are run over a list
of live reservations, one per network of each successful reservation, which
the reference counts are shown to count.
-/

namespace ContainerFS.Ports

/-- The first ephemeral port. -/
def FirstEphemeral : UInt16 := 16000

/-- The number of ephemeral ports, `math.MaxUint16 - FirstEphemeral + 1`. -/
def count : UInt16 := 65535 - FirstEphemeral + 1

@[simp] theorem toNat_firstEphemeral : FirstEphemeral.toNat = 16000 := by decide

@[simp] theorem toNat_count : count.toNat = 49536 := by decide

/-- The `tcpip.Error`s the port manager returns; `other` stands for an error a
`testPort` callback reports. -/
inductive Error where
  | noPortAvailable
  | portInUse
  | other (code : ℕ)
  deriving DecidableEq, Repr

section Pick

variable {m : Type → Type} [Monad m]

/-- The port tried at loop index `i`, `FirstEphemeral + (offset+i)%count`,
computed in `uint16`. -/
def portAt (offset i : UInt16) : UInt16 := FirstEphemeral + (offset + i) % count

/-- The loop of `PickEphemeralPort` over the indices still to try. -/
def pickFrom (offset : UInt16) (testPort : UInt16 → m (Except Error Bool)) :
    List UInt16 → m (Except Error UInt16)
  | [] => pure (.error .noPortAvailable)
  | i :: is => do
    match ← testPort (portAt offset i) with
    | .error e => pure (.error e)
    | .ok true => pure (.ok (portAt offset i))
    | .ok false => pickFrom offset testPort is

/-- The loop indices `0, 1, …, count - 1`. -/
def indices : List UInt16 := (List.range count.toNat).map UInt16.ofNat

/-- `PickEphemeralPort`, with `offset` the value `rand.Int31n(count)` drew. -/
def pickEphemeralPort (offset : UInt16) (testPort : UInt16 → m (Except Error Bool)) :
    m (Except Error UInt16) :=
  pickFrom offset testPort indices

/-- The ports `PickEphemeralPort` tries, in order, when no test accepts. -/
def testedPorts (offset : UInt16) : List UInt16 := indices.map (portAt offset)

/-- One turn of the walk, read on a state: the test's verdict decides whether the
walk stops or goes on from the state the test left. -/
theorem run_pickFrom_cons {σ : Type} (offset : UInt16) (t : UInt16 → StateM σ (Except Error Bool))
    (s : σ) (i : UInt16) (is : List UInt16) :
    (pickFrom offset t (i :: is)).run s =
      match (t (portAt offset i)).run s with
      | (.error e, s') => (.error e, s')
      | (.ok true, s') => (.ok (portAt offset i), s')
      | (.ok false, s') => (pickFrom offset t is).run s' := by
  simp only [pickFrom, StateT.run_bind]
  rcases (t (portAt offset i)).run s with ⟨e | _ | _, s'⟩ <;> rfl

end Pick

section Walk

theorem toNat_portAt (offset i : UInt16) :
    (portAt offset i).toNat = 16000 + (offset.toNat + i.toNat) % 65536 % 49536 := by
  simp only [portAt, UInt16.toNat_add, UInt16.toNat_mod, toNat_count, toNat_firstEphemeral,
    Nat.reducePow]
  have hlt : (offset.toNat + i.toNat) % 65536 % 49536 < 49536 := Nat.mod_lt _ (by decide)
  omega

theorem mem_indices {i : UInt16} : i ∈ indices ↔ i.toNat < 49536 := by
  simp only [indices, toNat_count, List.mem_map, List.mem_range]
  constructor
  · rintro ⟨n, hn, rfl⟩
    simp only [UInt16.toNat_ofNat', Nat.reducePow]
    omega
  · intro hi
    exact ⟨i.toNat, hi, UInt16.ofNat_toNat⟩

/-- Every port tried is ephemeral: the walk never leaves `[FirstEphemeral, 65535]`. -/
theorem firstEphemeral_le_portAt (offset i : UInt16) : FirstEphemeral ≤ portAt offset i := by
  rw [UInt16.le_iff_toNat_le, toNat_portAt, toNat_firstEphemeral]
  omega

/-- With `offset ≤ 16000`, `offset + i` does not wrap and the walk reaches every
ephemeral port. -/
theorem mem_testedPorts {offset p : UInt16} (ho : offset.toNat ≤ 16000)
    (hp : FirstEphemeral ≤ p) : p ∈ testedPorts offset := by
  rw [UInt16.le_iff_toNat_le, toNat_firstEphemeral] at hp
  have hpn := p.toNat_lt
  -- the index that lands on `p`: `p - FirstEphemeral - offset`, rotated
  let j := (p.toNat - 16000 + 49536 - offset.toNat) % 49536
  have hj : j < 49536 := Nat.mod_lt _ (by decide)
  refine List.mem_map.mpr ⟨UInt16.ofNat j, mem_indices.mpr ?_, ?_⟩
  · simp only [UInt16.toNat_ofNat', Nat.reducePow]
    omega
  · apply UInt16.toNat_inj.mp
    simp only [toNat_portAt, UInt16.toNat_ofNat', Nat.reducePow]
    omega

end Walk

section Outcome

variable (offset : UInt16) (accept : UInt16 → Bool)

/-- With a test that never fails, the walk ends in `ErrNoPortAvailable` exactly
when every port it tries is rejected. -/
theorem pickFrom_eq_noPortAvailable (is : List UInt16) :
    pickFrom (m := Id) offset (fun p => .ok (accept p)) is = .error .noPortAvailable ↔
      ∀ i ∈ is, accept (portAt offset i) = false := by
  induction is with
  | nil => simp [pickFrom, pure]
  | cons i is ih =>
    simp only [pickFrom, List.mem_cons, forall_eq_or_imp]
    cases h : accept (portAt offset i)
    · simpa [bind] using ih
    · simp [bind, pure]

theorem pickFrom_cons_id (i : UInt16) (is : List UInt16) :
    pickFrom (m := Id) offset (fun p => .ok (accept p)) (i :: is) =
      if accept (portAt offset i) then .ok (portAt offset i)
      else pickFrom (m := Id) offset (fun p => .ok (accept p)) is := by
  cases h : accept (portAt offset i) <;> simp [pickFrom, h, bind, pure]

/-- A port the walk returns was tried and accepted. -/
theorem pickFrom_eq_ok {p : UInt16} (is : List UInt16)
    (h : pickFrom (m := Id) offset (fun p => .ok (accept p)) is = .ok p) :
    accept p = true ∧ p ∈ is.map (portAt offset) := by
  induction is with
  | nil => simp [pickFrom, pure] at h
  | cons i is ih =>
    simp only [pickFrom] at h
    cases ht : accept (portAt offset i)
    · simp only [ht, bind] at h
      exact ⟨(ih h).1, List.mem_cons_of_mem _ (ih h).2⟩
    · simp only [ht, bind, pure] at h
      rw [← Except.ok.inj h]
      exact ⟨ht, List.mem_cons_self⟩

end Outcome

/-- From `offset = 16001` on, `offset + i` wraps: port 32000 is never tried, so
a test that accepts only it ends in `ErrNoPortAvailable`. -/
theorem pickEphemeralPort_skips_port :
    (∀ i ∈ indices, portAt 16001 i ≠ 32000) ∧
      pickEphemeralPort (m := Id) 16001 (fun p => .ok (p == 32000)) = .error .noPortAvailable := by
  have hskip : ∀ i ∈ indices, portAt 16001 i ≠ 32000 := by
    intro i hi heq
    have hi' := mem_indices.mp hi
    have := congrArg UInt16.toNat heq
    rw [toNat_portAt] at this
    simp only [UInt16.reduceToNat] at this
    omega
  refine ⟨hskip, (pickFrom_eq_noPortAvailable _ (· == 32000) _).mpr ?_⟩
  intro i hi
  simp [hskip i hi]

/-- With `offset ≤ 16000` the walk is exhaustive: it ends in
`ErrNoPortAvailable` exactly when every ephemeral port is rejected. -/
theorem pickEphemeralPort_eq_noPortAvailable {offset : UInt16} (ho : offset.toNat ≤ 16000)
    (accept : UInt16 → Bool) :
    pickEphemeralPort (m := Id) offset (fun p => .ok (accept p)) = .error .noPortAvailable ↔
      ∀ p, FirstEphemeral ≤ p → accept p = false := by
  rw [pickEphemeralPort, pickFrom_eq_noPortAvailable]
  constructor
  · intro h p hp
    obtain ⟨i, hi, rfl⟩ := List.mem_map.mp (mem_testedPorts ho hp)
    exact h i hi
  · intro h i _
    exact h _ (firstEphemeral_le_portAt offset i)

section Manager

abbrev NetworkProtocolNumber := UInt32

abbrev TransportProtocolNumber := UInt32

/-- `tcpip.Address`, a string of address bytes. -/
abbrev Address := List UInt8

/-- The wildcard address, the empty string. -/
def anyIPAddress : Address := []

structure PortDescriptor where
  network : NetworkProtocolNumber
  transport : TransportProtocolNumber
  port : UInt16
  deriving DecidableEq, Repr

structure PortNode where
  reuse : Bool
  refs : ℤ
  deriving DecidableEq, Repr

/-- `bindAddresses`: the node of each address bound on one descriptor. -/
abbrev BindAddresses := Finmap fun _ : Address => PortNode

/-- The map `allocatedPorts` of a `PortManager`. -/
abbrev AllocatedPorts := Finmap fun _ : PortDescriptor => BindAddresses

structure PortManager where
  allocatedPorts : AllocatedPorts

def newPortManager : PortManager := ⟨∅⟩

namespace BindAddresses

/-- A node bound at `x` lets a new binding share the address only if both ask
for reuse. -/
def admits (b : BindAddresses) (x : Address) (reuse : Bool) : Bool :=
  match b.lookup x with
  | some n => reuse && n.reuse
  | none => true

def isAvailable (b : BindAddresses) (addr : Address) (reuse : Bool) : Bool :=
  if addr = anyIPAddress then
    if b.keys = ∅ then true
    else if !reuse then false
    else decide (∀ a ∈ b.keys, (b.lookup a).all PortNode.reuse)
  else
    -- a wildcard binding covers every address, so it is checked first
    b.admits anyIPAddress reuse && b.admits addr reuse

/-- One network's step of `reserveSpecificPort` on a descriptor's map. -/
def bindAt (addr : Address) (reuse : Bool) (m : BindAddresses) : BindAddresses :=
  match m.lookup addr with
  | some n => m.insert addr { n with refs := n.refs + 1 }
  | none => m.insert addr ⟨reuse, 1⟩

end BindAddresses

open BindAddresses

/-- The descriptor of `port` on `network`. -/
def descOf (transport : TransportProtocolNumber) (port : UInt16)
    (network : NetworkProtocolNumber) : PortDescriptor :=
  ⟨network, transport, port⟩

namespace PortManager

def isPortAvailableLocked (s : PortManager) (networks : List NetworkProtocolNumber)
    (transport : TransportProtocolNumber) (addr : Address) (port : UInt16) (reuse : Bool) :
    Bool :=
  networks.all fun network =>
    match s.allocatedPorts.lookup (descOf transport port network) with
    | some addrs => addrs.isAvailable addr reuse
    | none => true

/-- The loop body of `reserveSpecificPort`: a missing map is made, then the
address's node is counted up or created. -/
def reserveAt (addr : Address) (reuse : Bool) (ports : AllocatedPorts) (desc : PortDescriptor) :
    AllocatedPorts :=
  ports.insert desc (bindAt addr reuse ((ports.lookup desc).getD ∅))

/-- The loop of `reserveSpecificPort` that reserves the port on all network
protocols. -/
def reserveAll (ports : AllocatedPorts) (networks : List NetworkProtocolNumber)
    (transport : TransportProtocolNumber) (addr : Address) (port : UInt16) (reuse : Bool) :
    AllocatedPorts :=
  networks.foldl (fun ports network => reserveAt addr reuse ports (descOf transport port network))
    ports

/-- `reserveSpecificPort`, returning whether it reserved and the new state. -/
def reserveSpecificPort (s : PortManager) (networks : List NetworkProtocolNumber)
    (transport : TransportProtocolNumber) (addr : Address) (port : UInt16) (reuse : Bool) :
    Bool × PortManager :=
  if !s.isPortAvailableLocked networks transport addr port reuse then (false, s)
  else (true, ⟨reserveAll s.allocatedPorts networks transport addr port reuse⟩)

/-- The `testPort` that `ReservePort` hands to `PickEphemeralPort`:
`reserveSpecificPort` itself, on the manager's state. -/
def reserveTest (networks : List NetworkProtocolNumber) (transport : TransportProtocolNumber)
    (addr : Address) (reuse : Bool) (p : UInt16) : StateM PortManager (Except Error Bool) :=
  modifyGet fun s =>
    match s.reserveSpecificPort networks transport addr p reuse with
    | (ok, s') => (.ok ok, s')

/-- `ReservePort`, with `offset` the draw of `PickEphemeralPort` when `port = 0`. -/
def reservePort (s : PortManager) (networks : List NetworkProtocolNumber)
    (transport : TransportProtocolNumber) (addr : Address) (port : UInt16) (reuse : Bool)
    (offset : UInt16) : Except Error UInt16 × PortManager :=
  if port ≠ 0 then
    match s.reserveSpecificPort networks transport addr port reuse with
    | (false, s') => (.error .portInUse, s')
    | (true, s') => (.ok port, s')
  else
    (pickEphemeralPort offset (reserveTest networks transport addr reuse)).run s

/-- The loop body of `ReleasePort`: the node loses a reference and goes with its
last, and the map goes when it is left empty. -/
def releaseAt (addr : Address) (ports : AllocatedPorts) (desc : PortDescriptor) :
    AllocatedPorts :=
  match ports.lookup desc with
  | none => ports
  | some m =>
    match m.lookup addr with
    | none => ports
    | some n =>
      let m' := if n.refs - 1 = 0 then m.erase addr else m.insert addr { n with refs := n.refs - 1 }
      if m'.keys = ∅ then ports.erase desc else ports.insert desc m'

/-- The loop of `ReleasePort` over the network protocols. -/
def releaseAll (ports : AllocatedPorts) (networks : List NetworkProtocolNumber)
    (transport : TransportProtocolNumber) (addr : Address) (port : UInt16) : AllocatedPorts :=
  networks.foldl (fun ports network => releaseAt addr ports (descOf transport port network)) ports

def releasePort (s : PortManager) (networks : List NetworkProtocolNumber)
    (transport : TransportProtocolNumber) (addr : Address) (port : UInt16) : PortManager :=
  ⟨releaseAll s.allocatedPorts networks transport addr port⟩

end PortManager

end Manager

section Fold

variable {S K V : Type} [DecidableEq K] (get : S → K → V) (upd : S → K → S) (f : V → V)

/-- A fold of updates, each of which changes the entry of its own key by `f`,
changes the entry of `j` by `f` once for each time the keys name `j`. -/
theorem get_foldl_update
    (hupd : ∀ x k j, get (upd x k) j = if j = k then f (get x j) else get x j)
    (ks : List K) (x : S) (j : K) : get (ks.foldl upd x) j = f^[ks.count j] (get x j) := by
  induction ks generalizing x with
  | nil => rfl
  | cons k ks ih =>
    rw [List.foldl_cons, ih, hupd, List.count_cons]
    by_cases h : j = k
    · subst h
      simp [Function.iterate_succ_apply]
    · have hkj : (k == j) = false := beq_false_of_ne (Ne.symm h)
      simp [h, hkj]

end Fold

section Entries

open BindAddresses PortManager

variable (addr : Address) (reuse : Bool)

theorem keys_eq_empty_iff {m : BindAddresses} : m.keys = ∅ ↔ ∀ a, m.lookup a = none := by
  simp only [Finset.eq_empty_iff_forall_notMem, Finmap.mem_keys, Finmap.lookup_eq_none]

/-- The map a reservation leaves at a descriptor whose map was `o`. -/
def bindEntry (o : Option BindAddresses) : Option BindAddresses :=
  some (bindAt addr reuse (o.getD ∅))

/-- The map a release leaves at a descriptor whose map was `o`; `none` when it
is deleted. -/
def unbindEntry : Option BindAddresses → Option BindAddresses
  | none => none
  | some m =>
    match m.lookup addr with
    | none => some m
    | some n =>
      let m' := if n.refs - 1 = 0 then m.erase addr else m.insert addr { n with refs := n.refs - 1 }
      if m'.keys = ∅ then none else some m'

theorem lookup_reserveAt (ports : AllocatedPorts) (desc d : PortDescriptor) :
    (reserveAt addr reuse ports desc).lookup d =
      if d = desc then bindEntry addr reuse (ports.lookup d) else ports.lookup d := by
  by_cases h : d = desc
  · subst h
    simp [reserveAt, bindEntry, Finmap.lookup_insert]
  · simp [reserveAt, h, Finmap.lookup_insert_of_ne _ h]

theorem lookup_releaseAt (ports : AllocatedPorts) (desc d : PortDescriptor) :
    (releaseAt addr ports desc).lookup d =
      if d = desc then unbindEntry addr (ports.lookup d) else ports.lookup d := by
  unfold releaseAt
  rcases hm : ports.lookup desc with _ | m
  · by_cases h : d = desc
    · subst h
      simp [hm, unbindEntry]
    · simp [h]
  · rcases hn : m.lookup addr with _ | n
    · by_cases h : d = desc
      · subst h
        simp [hm, unbindEntry, hn]
      · simp [h, hn]
    · by_cases h : d = desc
      · subst h
        simp only [hm, unbindEntry, hn, if_true]
        split_ifs <;> simp [Finmap.lookup_erase, Finmap.lookup_insert]
      · simp only [h, hn, if_false]
        split_ifs <;> simp [Finmap.lookup_erase_ne h, Finmap.lookup_insert_of_ne _ h]

/-- A descriptor's map reserved for `networks` is `bindEntry` applied once for
each network that names it. -/
theorem lookup_reserveAll (networks : List NetworkProtocolNumber)
    (transport : TransportProtocolNumber) (port : UInt16) (ports : AllocatedPorts)
    (d : PortDescriptor) :
    (reserveAll ports networks transport addr port reuse).lookup d =
      (bindEntry addr reuse)^[(networks.map (descOf transport port)).count d] (ports.lookup d) := by
  rw [reserveAll, ← List.foldl_map]
  exact get_foldl_update (fun ports d => Finmap.lookup d ports) (reserveAt addr reuse) _
    (fun ports desc d => lookup_reserveAt addr reuse ports desc d) _ _ _

theorem lookup_releaseAll (networks : List NetworkProtocolNumber)
    (transport : TransportProtocolNumber) (port : UInt16) (ports : AllocatedPorts)
    (d : PortDescriptor) :
    (releaseAll ports networks transport addr port).lookup d =
      (unbindEntry addr)^[(networks.map (descOf transport port)).count d] (ports.lookup d) := by
  rw [releaseAll, ← List.foldl_map]
  exact get_foldl_update (fun ports d => Finmap.lookup d ports) (releaseAt addr) _
    (fun ports desc d => lookup_releaseAt addr ports desc d) _ _ _

end Entries

section RoundTrip

open BindAddresses PortManager

/-- What every map of a reachable manager keeps: it is not empty, and each of
its nodes holds a reference. -/
structure BindAddresses.Held (m : BindAddresses) : Prop where
  nonempty : m.keys ≠ ∅
  refs_pos : ∀ a n, m.lookup a = some n → 1 ≤ n.refs

/-- A descriptor's map, when there is one, is held. -/
def HeldEntry : Option BindAddresses → Prop
  | none => True
  | some m => m.Held

/-- Every map of the manager is held. -/
def PortManager.Held (s : PortManager) : Prop := ∀ d, HeldEntry (s.allocatedPorts.lookup d)

/-- The node a reservation leaves at its address, from the one it found there. -/
def bumpNode (reuse : Bool) : Option PortNode → PortNode
  | some n => { n with refs := n.refs + 1 }
  | none => ⟨reuse, 1⟩

variable (addr : Address) (reuse : Bool)

theorem lookup_bindAt (m : BindAddresses) (a : Address) :
    (bindAt addr reuse m).lookup a =
      if a = addr then some (bumpNode reuse (m.lookup addr)) else m.lookup a := by
  unfold bindAt
  by_cases ha : a = addr
  · subst ha
    rcases m.lookup a with _ | n <;> simp [bumpNode, Finmap.lookup_insert]
  · rcases m.lookup addr with _ | n <;> simp [ha, Finmap.lookup_insert_of_ne _ ha]

theorem held_bindAt {m : BindAddresses} (hm : ∀ a n, m.lookup a = some n → 1 ≤ n.refs) :
    (bindAt addr reuse m).Held := by
  constructor
  · rw [Ne, keys_eq_empty_iff]
    intro h
    simpa [lookup_bindAt] using h addr
  · intro a n ha
    rw [lookup_bindAt] at ha
    split_ifs at ha with h
    · rcases hold : m.lookup addr with _ | n₀
      · simp [hold, bumpNode] at ha
        rw [← ha]
      · simp only [hold, bumpNode, Option.some.injEq] at ha
        have := hm addr n₀ hold
        rw [← ha]
        dsimp only
        omega
    · exact hm a n ha

theorem heldEntry_bindEntry {o : Option BindAddresses} (h : HeldEntry o) :
    HeldEntry (bindEntry addr reuse o) := by
  apply held_bindAt
  rcases o with _ | m
  · simp [Finmap.lookup_empty]
  · exact Held.refs_pos h

theorem heldEntry_unbindEntry {o : Option BindAddresses} (h : HeldEntry o) :
    HeldEntry (unbindEntry addr o) := by
  rcases o with _ | m
  · trivial
  · have hm : m.Held := h
    simp only [unbindEntry]
    rcases hn : m.lookup addr with _ | n
    · exact hm
    · have hpos := hm.refs_pos addr n hn
      simp only
      split_ifs with hzero hempty hempty
      · trivial
      · refine ⟨hempty, fun a n' ha => ?_⟩
        have hab : a ≠ addr := by
          rintro rfl
          simp [Finmap.lookup_erase] at ha
        rw [Finmap.lookup_erase_ne hab] at ha
        exact hm.refs_pos a n' ha
      · trivial
      · refine ⟨hempty, fun a n' ha => ?_⟩
        by_cases hab : a = addr
        · subst hab
          simp only [Finmap.lookup_insert, Option.some.injEq] at ha
          rw [← ha]
          dsimp only
          omega
        · exact hm.refs_pos a n' (by rwa [Finmap.lookup_insert_of_ne _ hab] at ha)

/-- Releasing an address undoes reserving it, on a map that is held. -/
theorem unbindEntry_bindEntry {o : Option BindAddresses} (h : HeldEntry o) :
    unbindEntry addr (bindEntry addr reuse o) = o := by
  rcases o with _ | m
  · -- a fresh node with one reference: the node and then the map go
    have hempty : (Finmap.erase addr (bindAt addr reuse ∅)).keys = ∅ := by
      rw [keys_eq_empty_iff]
      intro a
      by_cases ha : a = addr
      · rw [ha, Finmap.lookup_erase]
      · rw [Finmap.lookup_erase_ne ha, lookup_bindAt, if_neg ha, Finmap.lookup_empty]
    simp only [bindEntry, unbindEntry, Option.getD_none, lookup_bindAt, ↓reduceIte,
      Finmap.lookup_empty, bumpNode, sub_self, hempty]
  · have hm : m.Held := h
    rcases hn : m.lookup addr with _ | n
    · -- the node was new: erasing it gives back `m`
      have hback : Finmap.erase addr (bindAt addr reuse m) = m := by
        apply Finmap.ext_lookup
        intro a
        by_cases ha : a = addr
        · rw [ha, Finmap.lookup_erase, hn]
        · rw [Finmap.lookup_erase_ne ha, lookup_bindAt, if_neg ha]
      simp only [bindEntry, unbindEntry, Option.getD_some, lookup_bindAt, ↓reduceIte, hn,
        bumpNode, sub_self, hback, hm.nonempty]
    · -- the node was there: taking the reference back gives back `m`
      have hpos := hm.refs_pos addr n hn
      have hback : Finmap.insert addr { reuse := n.reuse, refs := n.refs + 1 - 1 }
          (bindAt addr reuse m) = m := by
        apply Finmap.ext_lookup
        intro a
        by_cases ha : a = addr
        · rw [ha, Finmap.lookup_insert, hn, add_sub_cancel_right]
        · rw [Finmap.lookup_insert_of_ne _ ha, lookup_bindAt, if_neg ha]
      have hne : n.refs + 1 - 1 ≠ 0 := by omega
      simp only [bindEntry, unbindEntry, Option.getD_some, lookup_bindAt, ↓reduceIte, hn,
        bumpNode, hne, hback, hm.nonempty]

theorem heldEntry_iterate_bindEntry (k : ℕ) {o : Option BindAddresses} (h : HeldEntry o) :
    HeldEntry ((bindEntry addr reuse)^[k] o) := by
  induction k with
  | zero => exact h
  | succ k ih =>
    rw [Function.iterate_succ_apply']
    exact heldEntry_bindEntry addr reuse ih

theorem unbindEntry_iterate_bindEntry (k : ℕ) {o : Option BindAddresses} (h : HeldEntry o) :
    (unbindEntry addr)^[k] ((bindEntry addr reuse)^[k] o) = o := by
  induction k with
  | zero => rfl
  | succ k ih =>
    rw [Function.iterate_succ_apply' (bindEntry addr reuse),
      Function.iterate_succ_apply (unbindEntry addr), unbindEntry_bindEntry addr reuse (heldEntry_iterate_bindEntry addr reuse k h), ih]

theorem heldEntry_iterate_unbindEntry (k : ℕ) {o : Option BindAddresses} (h : HeldEntry o) :
    HeldEntry ((unbindEntry addr)^[k] o) := by
  induction k with
  | zero => exact h
  | succ k ih =>
    rw [Function.iterate_succ_apply']
    exact heldEntry_unbindEntry addr ih

variable (networks : List NetworkProtocolNumber) (transport : TransportProtocolNumber)
  (port : UInt16)

theorem held_reserveAll {s : PortManager} (hs : s.Held) :
    (⟨reserveAll s.allocatedPorts networks transport addr port reuse⟩ : PortManager).Held := by
  intro d
  rw [lookup_reserveAll]
  exact heldEntry_iterate_bindEntry addr reuse _ (hs d)

theorem held_releasePort {s : PortManager} (hs : s.Held) :
    (s.releasePort networks transport addr port).Held := by
  intro d
  rw [releasePort, lookup_releaseAll]
  exact heldEntry_iterate_unbindEntry addr _ (hs d)

/-- Releasing what one call reserved gives back the manager: each descriptor's map
is reserved and released once per network naming it. -/
theorem releasePort_reserveAll {s : PortManager} (hs : s.Held) :
    releasePort ⟨reserveAll s.allocatedPorts networks transport addr port reuse⟩ networks transport
      addr port = s := by
  obtain ⟨ports⟩ := s
  rw [releasePort, PortManager.mk.injEq]
  apply Finmap.ext_lookup
  intro d
  rw [lookup_releaseAll, lookup_reserveAll]
  exact unbindEntry_iterate_bindEntry addr reuse _ (hs d)

end RoundTrip

section Reserve

open BindAddresses PortManager

variable (s : PortManager) (networks : List NetworkProtocolNumber)
  (transport : TransportProtocolNumber) (addr : Address) (reuse : Bool) (offset : UInt16)

theorem fst_reserveSpecificPort (p : UInt16) :
    (s.reserveSpecificPort networks transport addr p reuse).1 =
      s.isPortAvailableLocked networks transport addr p reuse := by
  unfold reserveSpecificPort
  cases s.isPortAvailableLocked networks transport addr p reuse <;> rfl

theorem reserveSpecificPort_of_unavailable {p : UInt16}
    (h : s.isPortAvailableLocked networks transport addr p reuse = false) :
    s.reserveSpecificPort networks transport addr p reuse = (false, s) := by
  simp [reserveSpecificPort, h]

theorem reserveSpecificPort_of_available {p : UInt16}
    (h : s.isPortAvailableLocked networks transport addr p reuse = true) :
    s.reserveSpecificPort networks transport addr p reuse =
      (true, ⟨reserveAll s.allocatedPorts networks transport addr p reuse⟩) := by
  simp [reserveSpecificPort, h]

theorem run_reserveTest (p : UInt16) :
    (reserveTest networks transport addr reuse p).run s =
      (.ok (s.isPortAvailableLocked networks transport addr p reuse),
        (s.reserveSpecificPort networks transport addr p reuse).2) := by
  rw [← fst_reserveSpecificPort]
  rfl

/-- The ephemeral search of `ReservePort` is the pure search for an available
port followed by its reservation: a refused test leaves the manager as it was. -/
theorem run_pickFrom_reserveTest (is : List UInt16) :
    (pickFrom offset (reserveTest networks transport addr reuse) is).run s =
      match pickFrom (m := Id) offset
          (fun p => .ok (s.isPortAvailableLocked networks transport addr p reuse)) is with
      | .ok p => (.ok p, (s.reserveSpecificPort networks transport addr p reuse).2)
      | .error e => (.error e, s) := by
  induction is with
  | nil => rfl
  | cons i is ih =>
    rw [run_pickFrom_cons, run_reserveTest, pickFrom_cons_id]
    cases ha : s.isPortAvailableLocked networks transport addr (portAt offset i) reuse
    · rw [reserveSpecificPort_of_unavailable s networks transport addr reuse ha]
      simpa using ih
    · rfl

/-- What `ReservePort` can do: fail and leave the manager as it was, or reserve a
port that was available, the one asked for when that is not zero. -/
theorem reservePort_cases {port : UInt16} {r : Except Error UInt16} {s' : PortManager}
    (h : s.reservePort networks transport addr port reuse offset = (r, s')) :
    (∃ e, r = .error e ∧ s' = s) ∨
      ∃ p, r = .ok p ∧ (port ≠ 0 → p = port) ∧
        s.isPortAvailableLocked networks transport addr p reuse = true ∧
        s' = ⟨reserveAll s.allocatedPorts networks transport addr p reuse⟩ := by
  unfold reservePort at h
  split_ifs at h with hport
  · -- a port was asked for: it is reserved or refused as it is
    cases ha : s.isPortAvailableLocked networks transport addr port reuse
    · rw [reserveSpecificPort_of_unavailable s networks transport addr reuse ha] at h
      simp only [Prod.mk.injEq] at h
      exact .inl ⟨_, h.1.symm, h.2.symm⟩
    · rw [reserveSpecificPort_of_available s networks transport addr reuse ha] at h
      simp only [Prod.mk.injEq] at h
      exact .inr ⟨port, h.1.symm, fun _ => rfl, ha, h.2.symm⟩
  · -- port zero: the ephemeral search, which reserves the port it finds
    rw [pickEphemeralPort, run_pickFrom_reserveTest] at h
    rcases hpick : pickFrom (m := Id) offset
        (fun p => .ok (s.isPortAvailableLocked networks transport addr p reuse)) indices
      with e | p
    · rw [hpick] at h
      simp only [Prod.mk.injEq] at h
      exact .inl ⟨e, h.1.symm, h.2.symm⟩
    · rw [hpick] at h
      simp only [Prod.mk.injEq] at h
      have ha := (pickFrom_eq_ok offset _ indices hpick).1
      rw [reserveSpecificPort_of_available s networks transport addr reuse ha] at h
      exact .inr ⟨p, h.1.symm, fun hne => absurd (not_not.mp hport) hne, ha, h.2.symm⟩

end Reserve

section Run

open BindAddresses PortManager

/-- A live reservation of an address on a descriptor: `ReservePort` makes one
for each network it reserves on. -/
structure Reservation where
  desc : PortDescriptor
  addr : Address
  reuse : Bool
  deriving DecidableEq, Repr

/-- Whether a reservation is of address `a` on descriptor `d`. -/
def Reservation.isAt (d : PortDescriptor) (a : Address) (v : Reservation) : Bool :=
  v.desc == d && v.addr == a

/-- The reservations one successful `ReservePort` makes. -/
def reservationsOf (networks : List NetworkProtocolNumber) (transport : TransportProtocolNumber)
    (port : UInt16) (addr : Address) (reuse : Bool) : List Reservation :=
  networks.map fun network => ⟨descOf transport port network, addr, reuse⟩

/-- What `ReleasePort` releases: one reservation of the address on each network's
descriptor. -/
def releaseReservations (networks : List NetworkProtocolNumber)
    (transport : TransportProtocolNumber) (port : UInt16) (addr : Address)
    (live : List Reservation) : List Reservation :=
  networks.foldl (fun live network => live.eraseP (Reservation.isAt (descOf transport port network) addr))
    live

/-- The calls a port manager serves. -/
inductive Call where
  | reservePort (networks : List NetworkProtocolNumber) (transport : TransportProtocolNumber)
      (addr : Address) (port : UInt16) (reuse : Bool) (offset : UInt16)
  | releasePort (networks : List NetworkProtocolNumber) (transport : TransportProtocolNumber)
      (addr : Address) (port : UInt16)
  deriving DecidableEq, Repr

def Call.networks : Call → List NetworkProtocolNumber
  | .reservePort networks .. => networks
  | .releasePort networks .. => networks

/-- One call, on the manager and on the live reservations. -/
def step : PortManager × List Reservation → Call → PortManager × List Reservation
  | (s, live), .reservePort networks transport addr port reuse offset =>
    match s.reservePort networks transport addr port reuse offset with
    | (.ok p, s') => (s', live ++ reservationsOf networks transport p addr reuse)
    | (.error _, s') => (s', live)
  | (s, live), .releasePort networks transport addr port =>
    (s.releasePort networks transport addr port,
      releaseReservations networks transport port addr live)

/-- The manager and its live reservations after a sequence of calls from
`NewPortManager`. -/
def runPorts (calls : List Call) : PortManager × List Reservation :=
  calls.foldl step (newPortManager, [])

/-- The node bound at address `a` on descriptor `d`. -/
def PortManager.nodeAt (s : PortManager) (d : PortDescriptor) (a : Address) : Option PortNode :=
  (s.allocatedPorts.lookup d).bind (·.lookup a)

/-- The references held at address `a` on descriptor `d`, zero when nothing is bound. -/
def PortManager.refsAt (s : PortManager) (d : PortDescriptor) (a : Address) : ℤ :=
  ((s.nodeAt d a).map PortNode.refs).getD 0

/-- Two bound addresses overlap when they are equal or either is the wildcard. -/
def Overlap (a b : Address) : Prop := a = b ∨ a = anyIPAddress ∨ b = anyIPAddress

/-- The invariant of a reachable manager over its live reservations: the maps
are held, the references count the reservations, each reservation's node has
its reuse flag, and overlapping reservations on one descriptor both allow reuse. -/
structure Consistent (s : PortManager) (live : List Reservation) : Prop where
  held : s.Held
  refs : ∀ d a, s.refsAt d a = (live.countP (Reservation.isAt d a) : ℤ)
  reuse : ∀ v ∈ live, ∃ n, s.nodeAt v.desc v.addr = some n ∧ n.reuse = v.reuse
  overlap : live.Pairwise fun v w => v.desc = w.desc → Overlap v.addr w.addr → v.reuse ∧ w.reuse

end Run

section Counting

variable {α : Type} (p q : α → Bool)

theorem countP_eraseP_self (l : List α) : (l.eraseP p).countP p = l.countP p - 1 := by
  induction l with
  | nil => simp
  | cons x l ih =>
    by_cases hx : p x
    · simp [List.eraseP_cons_of_pos hx, List.countP_cons_of_pos hx]
    · simp [List.eraseP_cons_of_neg hx, List.countP_cons_of_neg hx, ih]

theorem countP_eraseP_of_disjoint (h : ∀ x, q x = true → p x = false) (l : List α) :
    (l.eraseP p).countP q = l.countP q := by
  induction l with
  | nil => simp
  | cons x l ih =>
    by_cases hx : p x
    · have hq : q x = false := by
        cases hqx : q x
        · rfl
        · simp [h x hqx] at hx
      rw [List.eraseP_cons_of_pos hx, List.countP_cons_of_neg (by simp [hq])]
    · simp only [List.eraseP_cons_of_neg hx]
      by_cases hqx : q x
      · simp [List.countP_cons_of_pos hqx, ih]
      · simp [List.countP_cons_of_neg hqx, ih]

end Counting

section Nodes

open BindAddresses PortManager

variable (addr : Address) (reuse : Bool)

/-- The node a release leaves at its address, from the one it found there. -/
def dropNode : Option PortNode → Option PortNode
  | none => none
  | some n => if n.refs - 1 = 0 then none else some { n with refs := n.refs - 1 }

theorem lookup_getD_empty (o : Option BindAddresses) (a : Address) :
    (o.getD ∅).lookup a = o.bind (·.lookup a) := by
  cases o <;> simp [Finmap.lookup_empty]

theorem bind_lookup_bindEntry (o : Option BindAddresses) (a : Address) :
    (bindEntry addr reuse o).bind (·.lookup a) =
      if a = addr then some (bumpNode reuse (o.bind (·.lookup addr))) else o.bind (·.lookup a) := by
  simp [bindEntry, lookup_bindAt, lookup_getD_empty]

theorem lookup_released (m : BindAddresses) (n : PortNode) (a : Address) :
    (if n.refs - 1 = 0 then m.erase addr else m.insert addr { n with refs := n.refs - 1 }).lookup a =
      if a = addr then dropNode (some n) else m.lookup a := by
  by_cases ha : a = addr
  · subst ha
    by_cases hz : n.refs - 1 = 0 <;> simp [hz, dropNode, Finmap.lookup_erase, Finmap.lookup_insert]
  · by_cases hz : n.refs - 1 = 0 <;>
      simp [hz, ha, Finmap.lookup_erase_ne ha, Finmap.lookup_insert_of_ne _ ha]

theorem bind_lookup_unless_empty (m : BindAddresses) (a : Address) :
    (if m.keys = ∅ then none else some m).bind (·.lookup a) = m.lookup a := by
  split_ifs with h
  · exact ((keys_eq_empty_iff.mp h) a).symm
  · rfl

theorem bind_lookup_unbindEntry (o : Option BindAddresses) (a : Address) :
    (unbindEntry addr o).bind (·.lookup a) =
      if a = addr then dropNode (o.bind (·.lookup addr)) else o.bind (·.lookup a) := by
  rcases o with _ | m
  · simp [unbindEntry, dropNode]
  · rcases hn : m.lookup addr with _ | n
    · by_cases ha : a = addr
      · subst ha
        simp [unbindEntry, hn, dropNode]
      · simp [unbindEntry, hn, ha]
    · simp only [unbindEntry, hn]
      rw [bind_lookup_unless_empty, lookup_released]
      simp [hn]

variable {networks : List NetworkProtocolNumber} (hnd : networks.Nodup)
  (transport : TransportProtocolNumber) (port : UInt16)
include hnd

/-- With no network named twice, each descriptor is named at most once. -/
theorem count_descOf (d : PortDescriptor) :
    (networks.map (descOf transport port)).count d =
      if d ∈ networks.map (descOf transport port) then 1 else 0 := by
  have hinj : Function.Injective (descOf transport port) :=
    fun _ _ h => congrArg PortDescriptor.network h
  split_ifs with hd
  · exact List.count_eq_one_of_mem (hnd.map hinj) hd
  · exact List.count_eq_zero_of_not_mem hd

theorem nodeAt_reserveAll (s : PortManager) (d : PortDescriptor) (a : Address) :
    (⟨reserveAll s.allocatedPorts networks transport addr port reuse⟩ : PortManager).nodeAt d a =
      if d ∈ networks.map (descOf transport port) ∧ a = addr then
        some (bumpNode reuse (s.nodeAt d addr))
      else s.nodeAt d a := by
  simp only [nodeAt, lookup_reserveAll, count_descOf hnd]
  by_cases hd : d ∈ networks.map (descOf transport port)
  · simp only [hd, if_true, Function.iterate_one, bind_lookup_bindEntry, true_and]
  · simp [hd]

theorem nodeAt_releasePort (s : PortManager) (d : PortDescriptor) (a : Address) :
    (s.releasePort networks transport addr port).nodeAt d a =
      if d ∈ networks.map (descOf transport port) ∧ a = addr then dropNode (s.nodeAt d addr)
      else s.nodeAt d a := by
  simp only [nodeAt, releasePort, lookup_releaseAll, count_descOf hnd]
  by_cases hd : d ∈ networks.map (descOf transport port)
  · simp only [hd, if_true, Function.iterate_one, bind_lookup_unbindEntry, true_and]
  · simp [hd]

theorem countP_reservationsOf (d : PortDescriptor) (a : Address) :
    (reservationsOf networks transport port addr reuse).countP (Reservation.isAt d a) =
      if d ∈ networks.map (descOf transport port) ∧ a = addr then 1 else 0 := by
  have hcount : (reservationsOf networks transport port addr reuse).countP (Reservation.isAt d a) =
      if a = addr then (networks.map (descOf transport port)).count d else 0 := by
    rw [reservationsOf, List.countP_map, List.count_eq_countP, List.countP_map]
    by_cases ha : a = addr
    · subst ha
      simp [Function.comp_def, Reservation.isAt]
    · have hne : (addr == a) = false := beq_false_of_ne (Ne.symm ha)
      simp [Function.comp_def, Reservation.isAt, hne, ha]
  rw [hcount, count_descOf hnd]
  by_cases ha : a = addr <;> by_cases hd : d ∈ networks.map (descOf transport port) <;> simp [ha, hd]

theorem countP_releaseReservations (live : List Reservation) (d : PortDescriptor) (a : Address) :
    (releaseReservations networks transport port addr live).countP (Reservation.isAt d a) =
      if d ∈ networks.map (descOf transport port) ∧ a = addr then
        live.countP (Reservation.isAt d a) - 1
      else live.countP (Reservation.isAt d a) := by
  have hupd : ∀ (x : List Reservation) (k j : PortDescriptor),
      (x.eraseP (Reservation.isAt k addr)).countP (Reservation.isAt j a) =
        if j = k then (if a = addr then (· - 1) else id) (x.countP (Reservation.isAt j a))
        else x.countP (Reservation.isAt j a) := by
    intro x k j
    by_cases hjk : j = k
    · subst hjk
      by_cases ha : a = addr
      · subst ha
        simp [countP_eraseP_self]
      · simp only [if_true, ha, if_false, id]
        apply countP_eraseP_of_disjoint
        intro v hv
        simp only [Reservation.isAt, Bool.and_eq_true, beq_iff_eq] at hv ⊢
        simp [hv.2, ha]
    · simp only [hjk, if_false]
      apply countP_eraseP_of_disjoint
      intro v hv
      simp only [Reservation.isAt, Bool.and_eq_true, beq_iff_eq] at hv ⊢
      simp [hv.1, hjk]
  have hfold := get_foldl_update (fun (x : List Reservation) j => x.countP (Reservation.isAt j a))
    (fun x k => x.eraseP (Reservation.isAt k addr)) _ hupd (networks.map (descOf transport port)) live d
  rw [List.foldl_map] at hfold
  rw [releaseReservations, hfold, count_descOf hnd]
  by_cases ha : a = addr <;> by_cases hd : d ∈ networks.map (descOf transport port) <;> simp [ha, hd]

end Nodes

section Invariant

open BindAddresses PortManager

theorem refs_bumpNode (reuse : Bool) (o : Option PortNode) :
    (bumpNode reuse o).refs = (o.map PortNode.refs).getD 0 + 1 := by
  cases o <;> simp [bumpNode]

theorem refs_pos_of_nodeAt {s : PortManager} (hs : s.Held) {d : PortDescriptor} {a : Address}
    {n : PortNode} (h : s.nodeAt d a = some n) : 1 ≤ n.refs := by
  unfold nodeAt at h
  rcases hm : s.allocatedPorts.lookup d with _ | m
  · simp [hm] at h
  · have hheld : m.Held := by simpa [HeldEntry, hm] using hs d
    rw [hm, Option.bind_some] at h
    exact hheld.refs_pos a n h

/-- What availability says of a node already bound on a descriptor: if its
address overlaps the new one, both ask for reuse. -/
theorem isAvailable_overlap {m : BindAddresses} {addr a : Address} {reuse : Bool} {n : PortNode}
    (h : m.isAvailable addr reuse = true) (hn : m.lookup a = some n) (hov : Overlap a addr) :
    reuse = true ∧ n.reuse = true := by
  unfold isAvailable at h
  by_cases hany : addr = anyIPAddress
  · -- a wildcard binding is refused unless every bound node allows reuse
    have hne : m.keys ≠ ∅ := by
      rw [Ne, keys_eq_empty_iff]
      intro hall
      simp [hall a] at hn
    simp only [hany, if_true, hne, if_false] at h
    cases hreuse : reuse
    · simp [hreuse] at h
    · simp only [hreuse, Bool.not_true, Bool.false_eq_true, if_false, decide_eq_true_eq] at h
      have hall := h a (Finmap.mem_keys.mpr (Finmap.mem_of_lookup_eq_some hn))
      rw [hn] at hall
      exact ⟨rfl, by simpa using hall⟩
  · -- otherwise both the wildcard node and the address's own node must agree
    simp only [hany, if_false, Bool.and_eq_true] at h
    rcases hov with rfl | rfl | rfl
    · simpa [admits, hn] using h.2
    · simpa [admits, hn] using h.1
    · exact absurd rfl hany

theorem isPortAvailableLocked_overlap {s : PortManager} {networks : List NetworkProtocolNumber}
    {transport : TransportProtocolNumber} {addr a : Address} {port : UInt16} {reuse : Bool}
    {network : NetworkProtocolNumber} {n : PortNode}
    (h : s.isPortAvailableLocked networks transport addr port reuse = true)
    (hnet : network ∈ networks) (hn : s.nodeAt (descOf transport port network) a = some n)
    (hov : Overlap a addr) : reuse = true ∧ n.reuse = true := by
  have hnet' := List.all_eq_true.mp h network hnet
  unfold nodeAt at hn
  rcases hm : s.allocatedPorts.lookup (descOf transport port network) with _ | m
  · simp [hm] at hn
  · rw [hm] at hnet' hn
    exact isAvailable_overlap hnet' hn hov

theorem releaseReservations_sublist (networks : List NetworkProtocolNumber)
    (transport : TransportProtocolNumber) (port : UInt16) (addr : Address)
    (live : List Reservation) :
    List.Sublist (releaseReservations networks transport port addr live) live := by
  induction networks generalizing live with
  | nil => exact List.Sublist.refl _
  | cons network networks ih =>
    exact (ih _).trans List.eraseP_sublist

theorem consistent_new : Consistent newPortManager [] where
  held := fun d => by simp [newPortManager, Finmap.lookup_empty, HeldEntry]
  refs := fun d a => by simp [refsAt, nodeAt, newPortManager, Finmap.lookup_empty]
  reuse := fun v hv => absurd hv List.not_mem_nil
  overlap := List.Pairwise.nil

variable {s : PortManager} {live : List Reservation} {networks : List NetworkProtocolNumber}
  {transport : TransportProtocolNumber} {addr : Address} {port : UInt16} {reuse : Bool}

/-- A reservation keeps the invariant: the new reservations are counted by the
nodes they bump, and availability gave them the reuse their overlaps need. -/
theorem consistent_reserve (hc : Consistent s live) (hnd : networks.Nodup)
    (havail : s.isPortAvailableLocked networks transport addr port reuse = true) :
    Consistent ⟨reserveAll s.allocatedPorts networks transport addr port reuse⟩
      (live ++ reservationsOf networks transport port addr reuse) where
  held := held_reserveAll addr reuse networks transport port hc.held
  refs := by
    intro d a
    rw [List.countP_append, countP_reservationsOf addr reuse hnd, refsAt,
      nodeAt_reserveAll addr reuse hnd]
    split_ifs with hda
    · obtain ⟨-, rfl⟩ := hda
      have hr := hc.refs d a
      rw [refsAt] at hr
      simp only [Option.map_some, Option.getD_some, refs_bumpNode, hr]
      omega
    · rw [add_zero]
      exact hc.refs d a
  reuse := by
    intro v hv
    rw [nodeAt_reserveAll addr reuse hnd]
    rcases List.mem_append.mp hv with hv | hv
    · obtain ⟨n, hn, hr⟩ := hc.reuse v hv
      split_ifs with hda
      · rw [← hda.2, hn]
        exact ⟨_, rfl, hr⟩
      · exact ⟨n, hn, hr⟩
    · -- a new reservation, on a network of the call
      obtain ⟨network, hnet, rfl⟩ := List.mem_map.mp hv
      have hd := List.mem_map_of_mem (f := descOf transport port) hnet
      simp only [hd, and_self, if_true]
      refine ⟨_, rfl, ?_⟩
      rcases hnode : s.nodeAt (descOf transport port network) addr with _ | n
      · rfl
      · obtain ⟨hr, hnr⟩ := isPortAvailableLocked_overlap havail hnet hnode (Or.inl rfl)
        simp [bumpNode, hr, hnr]
  overlap := by
    rw [List.pairwise_append]
    refine ⟨hc.overlap, ?_, ?_⟩
    · -- the new reservations are on distinct descriptors
      rw [reservationsOf, List.pairwise_map]
      refine List.Pairwise.imp ?_ hnd
      intro n n' hne heq
      exact absurd (congrArg PortDescriptor.network heq) hne
    · intro v hv w hw hdesc hov
      obtain ⟨network, hnet, rfl⟩ := List.mem_map.mp hw
      obtain ⟨n, hn, hr⟩ := hc.reuse v hv
      rw [hdesc] at hn
      obtain ⟨hreuse, hnr⟩ := isPortAvailableLocked_overlap havail hnet hn hov
      exact ⟨hr ▸ hnr, hreuse⟩

/-- A release keeps the invariant: each node loses the reference of the
reservation released with it. -/
theorem consistent_release (hc : Consistent s live) (hnd : networks.Nodup) :
    Consistent (s.releasePort networks transport addr port)
      (releaseReservations networks transport port addr live) where
  held := held_releasePort addr networks transport port hc.held
  refs := by
    intro d a
    rw [countP_releaseReservations addr hnd, refsAt, nodeAt_releasePort addr hnd]
    split_ifs with hda
    · obtain ⟨-, rfl⟩ := hda
      have hr := hc.refs d a
      rw [refsAt] at hr
      rcases hnode : s.nodeAt d a with _ | n
      · rw [hnode] at hr
        simp only [Option.map_none, Option.getD_none] at hr
        simp [dropNode]
        omega
      · have hpos := refs_pos_of_nodeAt hc.held hnode
        rw [hnode] at hr
        simp only [Option.map_some, Option.getD_some] at hr
        simp only [dropNode]
        split_ifs with hz
        · simp
          omega
        · simp
          omega
    · simpa [refsAt] using hc.refs d a
  reuse := by
    intro v hv
    have hold := (releaseReservations_sublist networks transport port addr live).subset hv
    obtain ⟨n, hn, hr⟩ := hc.reuse v hold
    rw [nodeAt_releasePort addr hnd]
    split_ifs with hda
    · -- the node lost a reference, but `v` still holds one
      rw [← hda.2, hn]
      have hcnt : 0 < (releaseReservations networks transport port addr live).countP
          (Reservation.isAt v.desc v.addr) :=
        List.countP_pos_iff.mpr ⟨v, hv, by simp [Reservation.isAt]⟩
      rw [countP_releaseReservations addr hnd, if_pos hda] at hcnt
      have hr' := hc.refs v.desc v.addr
      rw [refsAt, hn] at hr'
      simp only [Option.map_some, Option.getD_some] at hr'
      have hz : n.refs - 1 ≠ 0 := by omega
      simp only [dropNode, hz, if_false]
      exact ⟨_, rfl, hr⟩
    · exact ⟨n, hn, hr⟩
  overlap := hc.overlap.sublist (releaseReservations_sublist networks transport port addr live)

theorem consistent_step {st : PortManager × List Reservation} (hc : Consistent st.1 st.2)
    {c : Call} (hnd : c.networks.Nodup) : Consistent (step st c).1 (step st c).2 := by
  obtain ⟨s, live⟩ := st
  cases c with
  | reservePort networks transport addr port reuse offset =>
    change networks.Nodup at hnd
    rcases h : s.reservePort networks transport addr port reuse offset with ⟨r, s'⟩
    rcases reservePort_cases s networks transport addr reuse offset h with
      ⟨e, rfl, rfl⟩ | ⟨p, rfl, -, havail, rfl⟩
    · simpa [step, h] using hc
    · simpa [step, h] using consistent_reserve hc hnd havail
  | releasePort networks transport addr port =>
    exact consistent_release hc hnd

theorem consistent_foldl_step (calls : List Call) (hnd : ∀ c ∈ calls, c.networks.Nodup)
    (st : PortManager × List Reservation) (hc : Consistent st.1 st.2) :
    Consistent (calls.foldl step st).1 (calls.foldl step st).2 := by
  induction calls generalizing st with
  | nil => exact hc
  | cons c calls ih =>
    rw [List.foldl_cons]
    exact ih (fun c' hc' => hnd c' (List.mem_cons_of_mem _ hc'))
      _ (consistent_step hc (hnd c List.mem_cons_self))

end Invariant

/-- A network named twice is reserved twice: one `ReservePort` on `[4, 4]`
leaves two references on its node. -/
theorem reservePort_duplicate_network :
    (newPortManager.reservePort [4, 4] 6 [10, 0, 0, 1] 80 false 0).1 = .ok 80 ∧
      (newPortManager.reservePort [4, 4] 6 [10, 0, 0, 1] 80 false 0).2.refsAt
        (descOf 6 80 4) [10, 0, 0, 1] = 2 := by
  decide

/-- Over every sequence of calls that names no network twice in one call: the
references at an address count its live reservations, overlapping reservations
on a descriptor all allow reuse, a failed `ReservePort` leaves the manager as it
was, and `ReleasePort` with the arguments of a successful `ReservePort` gives
back the manager it started from. -/
theorem runPorts_reservations (calls : List Call) (hnd : ∀ c ∈ calls, c.networks.Nodup) :
    (∀ d a, (runPorts calls).1.refsAt d a =
        ((runPorts calls).2.countP (Reservation.isAt d a) : ℤ)) ∧
      (runPorts calls).2.Pairwise
        (fun v w => v.desc = w.desc → Overlap v.addr w.addr → v.reuse ∧ w.reuse) ∧
      (∀ networks transport addr port reuse offset e s',
        (runPorts calls).1.reservePort networks transport addr port reuse offset = (.error e, s') →
          s' = (runPorts calls).1) ∧
      (∀ networks transport addr port reuse offset p s',
        (runPorts calls).1.reservePort networks transport addr port reuse offset = (.ok p, s') →
          s'.releasePort networks transport addr p = (runPorts calls).1) := by
  have hc := consistent_foldl_step calls hnd (newPortManager, []) consistent_new
  refine ⟨hc.refs, hc.overlap, ?_, ?_⟩
  · intro networks transport addr port reuse offset e s' h
    rcases reservePort_cases _ networks transport addr reuse offset h with
      ⟨_, -, hs⟩ | ⟨_, hr, -⟩
    · exact hs
    · cases hr
  · intro networks transport addr port reuse offset p s' h
    rcases reservePort_cases _ networks transport addr reuse offset h with
      ⟨_, hr, -⟩ | ⟨q, hr, -, -, rfl⟩
    · cases hr
    · obtain rfl := Except.ok.inj hr
      exact releasePort_reserveAll addr reuse networks transport p hc.held

/-- Two reservations of port 80 that allow reuse, one on the wildcard address,
and a release of the first. -/
def samplePortCalls : List Call :=
  [.reservePort [4, 6] 6 [10, 0, 0, 1] 80 true 0, .reservePort [4] 6 anyIPAddress 80 true 0,
    .releasePort [4, 6] 6 [10, 0, 0, 1] 80]

theorem runPorts_reservations_sample :
    (∀ c ∈ samplePortCalls, c.networks.Nodup) ∧
      (runPorts samplePortCalls).1.refsAt (descOf 6 80 4) anyIPAddress =
        ((runPorts samplePortCalls).2.countP (Reservation.isAt (descOf 6 80 4) anyIPAddress) : ℤ) :=
  ⟨by decide, (runPorts_reservations samplePortCalls (by decide)).1 _ _⟩

end ContainerFS.Ports
