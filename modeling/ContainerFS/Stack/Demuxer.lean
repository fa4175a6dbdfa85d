import Mathlib

/-!
The transport demuxer of the network stack (`tcpip/stack/transport_demuxer.go`).
For each pair of network and transport protocol it keeps a table from
endpoint IDs to endpoints; an ID bound with `SO_REUSEPORT` maps to a
`multiPortEndpoint`, a group that keeps its endpoints in an array and, for
each, its index there, so that unregistering can swap the last one into its
place. A packet goes to the endpoint of the most specific registered ID, and
within a group to the one a hash of the ID picks.

The group stores the index of a new endpoint under the group itself instead
of under the endpoint, so unregistering never finds an endpoint in a group:
it stays in the array, the ID stays in the table, and packets still reach it.
-/

namespace ContainerFS.Stack

/-- `tcpip.Address`: the bytes of a network address. -/
abbrev Address := List UInt8

def ipv4Broadcast : Address := [0xff, 0xff, 0xff, 0xff]

def ipv4ProtocolNumber : ℕ := 0x0800

def udpProtocolNumber : ℕ := 17

/-- `tcpip.Subnet`: an address and a mask of its length. -/
structure Subnet where
  address : Address
  mask : Address
  deriving DecidableEq, Repr

def Subnet.contains (s : Subnet) (a : Address) : Bool :=
  a.length == s.address.length && List.zipWith (· &&& ·) a s.mask == s.address

/-- `loopbackSubnet`, `127.0.0.0/8`. -/
def loopbackSubnet : Subnet := ⟨[0x7f, 0, 0, 0], [0xff, 0, 0, 0]⟩

structure TransportEndpointID where
  localPort : UInt16
  localAddress : Address
  remotePort : UInt16
  remoteAddress : Address
  deriving DecidableEq, Repr

/-- `protocolIDs`, the key of the demuxer's tables. -/
structure ProtocolIDs where
  network : ℕ
  transport : ℕ
  deriving DecidableEq, Repr

/-! ### `SO_REUSEPORT` groups -/

section Endpoints

variable {E : Type} [DecidableEq E]

/-- A key of a group's `endpointsMap`, a `TransportEndpoint`: one of the
endpoints, or the group itself. -/
inductive Key (E : Type) where
  | endpoint (e : E)
  | group
  deriving DecidableEq, Repr

/-- `multiPortEndpoint`, endpoints bound to one address and port. -/
structure MultiPortEndpoint (E : Type) where
  endpointsArr : List E
  endpointsMap : Key E → Option ℕ
  seed : UInt32

/-- A group as `singleRegisterEndpoint` of the demuxer makes it, with the seed
`rand.Uint32()` gave. -/
def MultiPortEndpoint.new (seed : UInt32) : MultiPortEndpoint E := ⟨[], fun _ => none, seed⟩

/-- `reciprocalScale`: `val` scaled into `[0, n)`. -/
def reciprocalScale (val n : UInt32) : UInt32 :=
  ((val.toUInt64 * n.toUInt64) >>> 32).toUInt32

/-- `multiPortEndpoint.selectEndpoint`; `sum32 seed bytes` is the Jenkins hash
with that seed of the bytes written to it. An index out of the array panics. -/
def MultiPortEndpoint.selectEndpoint (sum32 : UInt32 → List UInt8 → UInt32)
    (ep : MultiPortEndpoint E) (id : TransportEndpointID) : Option E :=
  let payload := [id.localPort.toUInt8, (id.localPort >>> 8).toUInt8, id.remotePort.toUInt8,
    (id.remotePort >>> 8).toUInt8]
  let hash := sum32 ep.seed (payload ++ id.localAddress ++ id.remoteAddress)
  ep.endpointsArr[(reciprocalScale hash ep.endpointsArr.length.toUInt32).toNat]?

/-- `multiPortEndpoint.singleRegisterEndpoint`: `t` joins the array, and the
index is stored under `ep`, the group itself. -/
def MultiPortEndpoint.singleRegisterEndpoint (t : E) (ep : MultiPortEndpoint E) :
    MultiPortEndpoint E :=
  { ep with
    endpointsMap := Function.update ep.endpointsMap .group (some ep.endpointsArr.length)
    endpointsArr := ep.endpointsArr ++ [t] }

/-- `multiPortEndpoint.unregisterEndpoint`: the group after `t` leaves it, and
whether the group is to be unregistered. The last endpoint moves into the
place of `t`. -/
def MultiPortEndpoint.unregisterEndpoint (t : E) (ep : MultiPortEndpoint E) :
    MultiPortEndpoint E × Bool :=
  match ep.endpointsMap (.endpoint t) with
  | none => (ep, false)
  | some idx =>
    let m := Function.update ep.endpointsMap (.endpoint t) none
    let l := ep.endpointsArr.length
    if h : l > 1 then
      let lastEp := ep.endpointsArr.get ⟨l - 1, Nat.sub_lt (Nat.zero_lt_of_lt h) Nat.one_pos⟩
      ({ ep with
        endpointsArr := (ep.endpointsArr.set idx lastEp).take (l - 1)
        endpointsMap := Function.update m (.endpoint lastEp) (some idx) }, false)
    else ({ ep with endpointsMap := m }, true)

/-- What a table maps an ID to: an endpoint, or a group. -/
inductive Entry (E : Type) where
  | single (e : E)
  | multi (m : MultiPortEndpoint E)

/-- The endpoints a packet for `id` reaches through an entry, as its
`HandlePacket` passes it on; `none` is a panic. -/
def Entry.handlePacket (sum32 : UInt32 → List UInt8 → UInt32) (id : TransportEndpointID) :
    Entry E → Option (List E)
  | .single e => some [e]
  | .multi m =>
    if id.localAddress = ipv4Broadcast then some m.endpointsArr
    else (m.selectEndpoint sum32 id).map fun e => [e]

/-! ### The tables -/

/-- `transportEndpoints`, the table of one protocol pair; the Go map is an
association list, whose order stands for the map's iteration order. -/
structure TransportEndpoints (E : Type) where
  endpoints : AList fun _ : TransportEndpointID => Entry E
  rawEndpoints : List E

def TransportEndpoints.unregisterEndpoint (id : TransportEndpointID) (ep : E)
    (eps : TransportEndpoints E) : TransportEndpoints E :=
  match eps.endpoints.lookup id with
  | none => eps
  | some (.single _) => { eps with endpoints := eps.endpoints.erase id }
  | some (.multi m) =>
    -- the group changes in place; it leaves the table only when it empties
    let r := m.unregisterEndpoint ep
    let eps := { eps with endpoints := eps.endpoints.insert id (.multi r.1) }
    if r.2 then { eps with endpoints := eps.endpoints.erase id } else eps

/-- `tcpip.ErrPortInUse`, the one error of registration. -/
inductive Error where
  | portInUse
  deriving DecidableEq, Repr

structure TransportDemuxer (E : Type) where
  protocol : ProtocolIDs → Option (TransportEndpoints E)

/-- `newTransportDemuxer`: an empty table for each pair of the stack's network
and transport protocols. -/
def newTransportDemuxer (networkProtocols transportProtocols : List ℕ) : TransportDemuxer E :=
  ⟨fun p => if p.network ∈ networkProtocols ∧ p.transport ∈ transportProtocols then
    some ⟨∅, []⟩ else none⟩

namespace TransportDemuxer

/-- The table `p` with `id` mapped to `e`. -/
def setEntry (d : TransportDemuxer E) (p : ProtocolIDs) (eps : TransportEndpoints E)
    (id : TransportEndpointID) (e : Entry E) : TransportDemuxer E :=
  ⟨Function.update d.protocol p (some { eps with endpoints := eps.endpoints.insert id e })⟩

/-- `transportDemuxer.singleRegisterEndpoint`; `seed` is what `rand.Uint32()`
returns for a new group. -/
def singleRegisterEndpoint (d : TransportDemuxer E) (netProto protocol : ℕ)
    (id : TransportEndpointID) (ep : E) (reusePort : Bool) (seed : UInt32) :
    TransportDemuxer E × Option Error :=
  let reusePort := if id.remotePort ≠ 0 then false else reusePort
  let p : ProtocolIDs := ⟨netProto, protocol⟩
  match d.protocol p with
  | none => (d, none)
  | some eps =>
    match eps.endpoints.lookup id with
    | some e =>
      if !reusePort then (d, some .portInUse)
      else match e with
        | .single _ => (d, some .portInUse)
        | .multi m => (d.setEntry p eps id (.multi (m.singleRegisterEndpoint ep)), none)
    | none =>
      if reusePort then
        (d.setEntry p eps id (.multi ((MultiPortEndpoint.new seed).singleRegisterEndpoint ep)), none)
      else (d.setEntry p eps id (.single ep), none)

def unregisterEndpoint (d : TransportDemuxer E) (netProtos : List ℕ) (protocol : ℕ)
    (id : TransportEndpointID) (ep : E) : TransportDemuxer E :=
  netProtos.foldl (fun d n =>
    match d.protocol ⟨n, protocol⟩ with
    | none => d
    | some eps => ⟨Function.update d.protocol ⟨n, protocol⟩ (some (eps.unregisterEndpoint id ep))⟩)
    d

/-- The loop of `registerEndpoint` from the `i`-th network protocol on; a
failure unregisters the endpoint from the tables before it. -/
def registerLoop (netProtos : List ℕ) (protocol : ℕ) (id : TransportEndpointID) (ep : E)
    (reusePort : Bool) (seeds : ℕ → UInt32) :
    ℕ → List ℕ → TransportDemuxer E → TransportDemuxer E × Option Error
  | _, [], d => (d, none)
  | i, n :: ns, d =>
    match d.singleRegisterEndpoint n protocol id ep reusePort (seeds i) with
    | (d, some err) => (d.unregisterEndpoint (netProtos.take i) protocol id ep, some err)
    | (d, none) => registerLoop netProtos protocol id ep reusePort seeds (i + 1) ns d

/-- `transportDemuxer.registerEndpoint`; `seeds i` is the seed of a group made
for the `i`-th network protocol. -/
def registerEndpoint (d : TransportDemuxer E) (netProtos : List ℕ) (protocol : ℕ)
    (id : TransportEndpointID) (ep : E) (reusePort : Bool) (seeds : ℕ → UInt32) :
    TransportDemuxer E × Option Error :=
  registerLoop netProtos protocol id ep reusePort seeds 0 netProtos d

end TransportDemuxer

/-- `findEndpointLocked`: the entry of the ID, else of the ID without its
local address, else without its remote part, else of the local port alone. -/
def findEndpointLocked (eps : TransportEndpoints E) (id : TransportEndpointID) : Option (Entry E) :=
  (eps.endpoints.lookup id).orElse fun _ =>
    (eps.endpoints.lookup { id with localAddress := [] }).orElse fun _ =>
      (eps.endpoints.lookup { id with remoteAddress := [], remotePort := 0 }).orElse fun _ =>
        eps.endpoints.lookup { id with localAddress := [], remoteAddress := [], remotePort := 0 }

/-- `Route`, as far as delivery reads it. -/
structure Route where
  netProto : ℕ
  localAddress : Address
  remoteAddress : Address
  deriving DecidableEq, Repr

namespace TransportDemuxer

/-- `transportDemuxer.deliverPacket`: whether it found an endpoint, and the
endpoints that get the packet, the raw ones first; `none` is a panic. -/
def deliverPacket (sum32 : UInt32 → List UInt8 → UInt32) (d : TransportDemuxer E) (r : Route)
    (protocol : ℕ) (id : TransportEndpointID) : Option (Bool × List E) :=
  match d.protocol ⟨r.netProto, protocol⟩ with
  | none => some (false, [])
  | some eps =>
    -- a broadcast from the loopback interface does not come back to its sender
    if loopbackSubnet.contains r.remoteAddress && r.localAddress == ipv4Broadcast &&
        id.localPort == id.remotePort then some (false, [])
    else
      let destEps : List (Entry E) :=
        if protocol = udpProtocolNumber ∧ id.localAddress = ipv4Broadcast then
          (eps.endpoints.entries.filter fun x => x.1.localPort == id.localPort).map Sigma.snd
        else (findEndpointLocked eps id).toList
      if destEps.isEmpty && eps.rawEndpoints.isEmpty then some (false, [])
      else (destEps.mapM (Entry.handlePacket sum32 id)).map fun dests =>
        (true, eps.rawEndpoints ++ dests.flatten)

/-- `transportDemuxer.deliverControlPacket`: whether it found an endpoint,
and the endpoints that get the packet. -/
def deliverControlPacket (sum32 : UInt32 → List UInt8 → UInt32) (d : TransportDemuxer E)
    (net trans : ℕ) (id : TransportEndpointID) : Option (Bool × List E) :=
  match d.protocol ⟨net, trans⟩ with
  | none => some (false, [])
  | some eps =>
    match findEndpointLocked eps id with
    | none => some (false, [])
    | some (.single e) => some (true, [e])
    | some (.multi m) => (m.selectEndpoint sum32 id).map fun e => (true, [e])

end TransportDemuxer

/-! ### Groups never find their endpoints -/

/-- No index is stored under an endpoint of the group. -/
def MultiPortEndpoint.NoEndpointKeys (m : MultiPortEndpoint E) : Prop :=
  ∀ t, m.endpointsMap (.endpoint t) = none

omit [DecidableEq E] in
theorem MultiPortEndpoint.noEndpointKeys_new (seed : UInt32) :
    (MultiPortEndpoint.new seed : MultiPortEndpoint E).NoEndpointKeys := fun _ => rfl

/-- Registering stores under the group, so it adds no key of an endpoint. -/
theorem MultiPortEndpoint.NoEndpointKeys.singleRegisterEndpoint {m : MultiPortEndpoint E}
    (h : m.NoEndpointKeys) (t : E) : (m.singleRegisterEndpoint t).NoEndpointKeys := fun u => by
  show Function.update m.endpointsMap .group (some m.endpointsArr.length) (.endpoint u) = none
  rw [Function.update_of_ne (by simp)]
  exact h u

/-- In such a group, unregistering an endpoint changes nothing and keeps the
group in the table. -/
theorem MultiPortEndpoint.NoEndpointKeys.unregisterEndpoint {m : MultiPortEndpoint E}
    (h : m.NoEndpointKeys) (t : E) : m.unregisterEndpoint t = (m, false) := by
  rw [MultiPortEndpoint.unregisterEndpoint, h t]

theorem reciprocalScale_toNat (val n : UInt32) :
    (reciprocalScale val n).toNat = val.toNat * n.toNat / 2 ^ 32 := by
  have hmul : val.toNat * n.toNat < 2 ^ 32 * 2 ^ 32 := Nat.mul_lt_mul'' val.toNat_lt n.toNat_lt
  have hprod : (val.toUInt64 * n.toUInt64).toNat = val.toNat * n.toNat := by
    rw [UInt64.toNat_mul, UInt32.toNat_toUInt64, UInt32.toNat_toUInt64, Nat.mod_eq_of_lt]
    rw [← Nat.pow_add] at hmul
    exact hmul
  have hshift : UInt64.toNat 32 % 64 = 32 := rfl
  show ((val.toUInt64 * n.toUInt64) >>> 32).toUInt32.toNat = _
  rw [UInt64.toNat_toUInt32, UInt64.toNat_shiftRight, hprod, hshift, Nat.shiftRight_eq_div_pow,
    Nat.mod_eq_of_lt (Nat.div_lt_of_lt_mul hmul)]

/-- `reciprocalScale` lands below `n`. -/
theorem reciprocalScale_lt (val : UInt32) {n : UInt32} (hn : 0 < n) : reciprocalScale val n < n := by
  rw [UInt32.lt_iff_toNat_lt, reciprocalScale_toNat, Nat.div_lt_iff_lt_mul (Nat.two_pow_pos 32),
    Nat.mul_comm]
  exact Nat.mul_lt_mul_of_pos_left val.toNat_lt (UInt32.lt_iff_toNat_lt.mp hn)

omit [DecidableEq E] in
/-- A group of fewer than `2 ^ 32` endpoints hands a packet to one of them,
whatever the hash. -/
theorem MultiPortEndpoint.selectEndpoint_mem (sum32 : UInt32 → List UInt8 → UInt32)
    {m : MultiPortEndpoint E} (hpos : 0 < m.endpointsArr.length)
    (hlt : m.endpointsArr.length < 2 ^ 32) (id : TransportEndpointID) :
    ∃ e ∈ m.endpointsArr, m.selectEndpoint sum32 id = some e := by
  have hn : m.endpointsArr.length.toUInt32.toNat = m.endpointsArr.length :=
    Nat.mod_eq_of_lt hlt
  have hidx := reciprocalScale_lt (sum32 m.seed ([id.localPort.toUInt8, (id.localPort >>> 8).toUInt8,
    id.remotePort.toUInt8, (id.remotePort >>> 8).toUInt8] ++ id.localAddress ++ id.remoteAddress))
    (n := m.endpointsArr.length.toUInt32) (by rw [UInt32.lt_iff_toNat_lt, hn]; exact hpos)
  rw [UInt32.lt_iff_toNat_lt, hn] at hidx
  exact ⟨_, List.getElem_mem hidx, List.getElem?_eq_getElem hidx⟩

/-! ### Over every run of registrations -/

/-- An entry whose group, if it is one, has no endpoint keys. -/
def Entry.Keyless : Entry E → Prop
  | .single _ => True
  | .multi m => m.NoEndpointKeys

/-- Every entry of a table is keyless. -/
def TransportEndpoints.Keyless (eps : TransportEndpoints E) : Prop :=
  ∀ id e, eps.endpoints.lookup id = some e → e.Keyless

/-- Every table of the demuxer is keyless. -/
def TransportDemuxer.Keyless (d : TransportDemuxer E) : Prop :=
  ∀ p eps, d.protocol p = some eps → eps.Keyless

omit [DecidableEq E] in
theorem TransportEndpoints.Keyless.insert {eps : TransportEndpoints E} (h : eps.Keyless)
    (id : TransportEndpointID) {e : Entry E} (he : e.Keyless) :
    TransportEndpoints.Keyless { eps with endpoints := eps.endpoints.insert id e } := by
  intro id' e' hlook
  by_cases hid : id' = id
  · subst hid
    rw [AList.lookup_insert, Option.some.injEq] at hlook
    exact hlook ▸ he
  · rw [AList.lookup_insert_ne hid] at hlook
    exact h id' e' hlook

omit [DecidableEq E] in
theorem TransportEndpoints.Keyless.erase {eps : TransportEndpoints E} (h : eps.Keyless)
    (id : TransportEndpointID) :
    TransportEndpoints.Keyless { eps with endpoints := eps.endpoints.erase id } := by
  intro id' e' hlook
  by_cases hid : id' = id
  · subst hid
    rw [AList.lookup_erase] at hlook
    cases hlook
  · rw [AList.lookup_erase_ne hid] at hlook
    exact h id' e' hlook

/-- Unregistering from a keyless table puts back the group it found, as it
was. -/
theorem TransportEndpoints.Keyless.unregisterEndpoint {eps : TransportEndpoints E}
    (h : eps.Keyless) (id : TransportEndpointID) (ep : E) :
    (eps.unregisterEndpoint id ep).Keyless := by
  unfold TransportEndpoints.unregisterEndpoint
  split
  · exact h
  · exact h.erase id
  · next m hm =>
    have hkeys : m.NoEndpointKeys := h id _ hm
    rw [hkeys.unregisterEndpoint]
    exact h.insert id hkeys

omit [DecidableEq E] in
theorem TransportDemuxer.Keyless.update {d : TransportDemuxer E} (h : d.Keyless) (p : ProtocolIDs)
    {eps : TransportEndpoints E} (heps : eps.Keyless) :
    TransportDemuxer.Keyless ⟨Function.update d.protocol p (some eps)⟩ := by
  intro p' eps' hp'
  dsimp only at hp'
  by_cases hp : p' = p
  · subst hp
    rw [Function.update_self, Option.some.injEq] at hp'
    exact hp' ▸ heps
  · rw [Function.update_of_ne hp] at hp'
    exact h p' eps' hp'

namespace TransportDemuxer

theorem Keyless.singleRegisterEndpoint {d : TransportDemuxer E} (h : d.Keyless)
    (netProto protocol : ℕ) (id : TransportEndpointID) (ep : E) (reusePort : Bool)
    (seed : UInt32) : (d.singleRegisterEndpoint netProto protocol id ep reusePort seed).1.Keyless := by
  unfold TransportDemuxer.singleRegisterEndpoint
  dsimp only
  generalize (if id.remotePort ≠ 0 then false else reusePort) = reuse
  cases hp : d.protocol ⟨netProto, protocol⟩ with
  | none => exact h
  | some eps =>
    have hkeys := h _ eps hp
    dsimp only
    cases hlook : eps.endpoints.lookup id with
    | some e =>
      -- the ID is bound: only a group with `SO_REUSEPORT` takes the endpoint
      cases reuse with
      | false => exact h
      | true =>
        cases e with
        | single e => exact h
        | multi m =>
          exact h.update _ (hkeys.insert id
            (MultiPortEndpoint.NoEndpointKeys.singleRegisterEndpoint (hkeys id _ hlook) ep))
    | none =>
      cases reuse with
      | true =>
        exact h.update _
          (hkeys.insert id ((MultiPortEndpoint.noEndpointKeys_new seed).singleRegisterEndpoint ep))
      | false => exact h.update _ (hkeys.insert id trivial)

theorem Keyless.unregisterEndpoint {d : TransportDemuxer E} (h : d.Keyless) (netProtos : List ℕ)
    (protocol : ℕ) (id : TransportEndpointID) (ep : E) :
    (d.unregisterEndpoint netProtos protocol id ep).Keyless := by
  unfold TransportDemuxer.unregisterEndpoint
  -- one table at a time, along the network protocols
  induction netProtos generalizing d with
  | nil => exact h
  | cons n ns ih =>
    rw [List.foldl_cons]
    apply ih
    split
    · exact h
    · next eps heps => exact h.update _ ((h _ eps heps).unregisterEndpoint id ep)

theorem Keyless.registerLoop {d : TransportDemuxer E} (h : d.Keyless) (netProtos : List ℕ)
    (protocol : ℕ) (id : TransportEndpointID) (ep : E) (reusePort : Bool) (seeds : ℕ → UInt32)
    (i : ℕ) (ns : List ℕ) :
    (TransportDemuxer.registerLoop netProtos protocol id ep reusePort seeds i ns d).1.Keyless := by
  induction ns generalizing d i with
  | nil => exact h
  | cons n ns ih =>
    have hstep := h.singleRegisterEndpoint n protocol id ep reusePort (seeds i)
    unfold TransportDemuxer.registerLoop
    split
    · next d' err heq =>
      rw [heq] at hstep
      exact hstep.unregisterEndpoint _ protocol id ep
    · next d' heq =>
      rw [heq] at hstep
      exact ih hstep (i + 1)

end TransportDemuxer

/-- A call on the demuxer. -/
inductive Call (E : Type) where
  | register (netProtos : List ℕ) (protocol : ℕ) (id : TransportEndpointID) (ep : E)
      (reusePort : Bool) (seeds : ℕ → UInt32)
  | unregister (netProtos : List ℕ) (protocol : ℕ) (id : TransportEndpointID) (ep : E)

namespace TransportDemuxer

/-- The demuxer after a call. -/
def call (d : TransportDemuxer E) : Call E → TransportDemuxer E
  | .register netProtos protocol id ep reusePort seeds =>
    (d.registerEndpoint netProtos protocol id ep reusePort seeds).1
  | .unregister netProtos protocol id ep => d.unregisterEndpoint netProtos protocol id ep

/-- The demuxer after the calls, one after the other. -/
def run (d : TransportDemuxer E) (calls : List (Call E)) : TransportDemuxer E :=
  calls.foldl call d

theorem Keyless.run {d : TransportDemuxer E} (h : d.Keyless) (calls : List (Call E)) :
    (d.run calls).Keyless := by
  induction calls generalizing d with
  | nil => exact h
  | cons c cs ih =>
    apply ih
    cases c with
    | register netProtos protocol id ep reusePort seeds => exact h.registerLoop _ _ _ _ _ _ _ _
    | unregister netProtos protocol id ep => exact h.unregisterEndpoint _ _ _ _

omit [DecidableEq E] in
/-- A packet for an ID that is not a broadcast, on a table without raw
endpoints, goes where the entry `findEndpointLocked` finds passes it. -/
theorem deliverPacket_of_find (sum32 : UInt32 → List UInt8 → UInt32) {d : TransportDemuxer E}
    {r : Route} {protocol : ℕ} {eps : TransportEndpoints E}
    (hp : d.protocol ⟨r.netProto, protocol⟩ = some eps) (hlocal : r.localAddress ≠ ipv4Broadcast)
    {id : TransportEndpointID} (hid : id.localAddress ≠ ipv4Broadcast) (hraw : eps.rawEndpoints = [])
    {e : Entry E} (hfind : findEndpointLocked eps id = some e) :
    d.deliverPacket sum32 r protocol id = (e.handlePacket sum32 id).map fun l => (true, l) := by
  have hloop : (loopbackSubnet.contains r.remoteAddress && r.localAddress == ipv4Broadcast &&
      id.localPort == id.remotePort) = false := by
    simp [hlocal]
  rw [deliverPacket, hp]
  dsimp only
  rw [if_neg (by simp [hloop]),
    if_neg (show ¬(protocol = udpProtocolNumber ∧ id.localAddress = ipv4Broadcast) from
      fun h => hid h.2), hfind, hraw]
  cases h : e.handlePacket sum32 id <;> simp [Option.toList, h]

end TransportDemuxer

end Endpoints

/-- A UDP endpoint bound with `SO_REUSEPORT` to port 80 of `10.0.0.1`, then
unregistered: the unregistration finds nothing to remove, and a packet from
`10.0.0.2:4000` to that port is still delivered to the endpoint, whatever the
hash and its seed. -/
theorem deliverPacket_after_unregister {E : Type} [DecidableEq E]
    (sum32 : UInt32 → List UInt8 → UInt32) (seed : UInt32) (ep : E) :
    let id : TransportEndpointID := ⟨80, [10, 0, 0, 1], 0, []⟩
    let d := (newTransportDemuxer [ipv4ProtocolNumber] [udpProtocolNumber] :
      TransportDemuxer E).registerEndpoint [ipv4ProtocolNumber] udpProtocolNumber id ep true
        fun _ => seed
    d.2 = none ∧
      (d.1.unregisterEndpoint [ipv4ProtocolNumber] udpProtocolNumber id ep).deliverPacket sum32
        ⟨ipv4ProtocolNumber, [10, 0, 0, 1], [10, 0, 0, 2]⟩ udpProtocolNumber
        ⟨80, [10, 0, 0, 1], 4000, [10, 0, 0, 2]⟩ = some (true, [ep]) := by
  intro id d
  -- the group registration made, holding the endpoint alone
  let m : MultiPortEndpoint E := (MultiPortEndpoint.new seed).singleRegisterEndpoint ep
  let eps : TransportEndpoints E :=
    ⟨((∅ : AList fun _ : TransportEndpointID => Entry E).insert id (.multi m)).insert id (.multi m), []⟩
  have hp : (d.1.unregisterEndpoint [ipv4ProtocolNumber] udpProtocolNumber id ep).protocol
      ⟨ipv4ProtocolNumber, udpProtocolNumber⟩ = some eps := rfl
  have hfind : findEndpointLocked eps ⟨80, [10, 0, 0, 1], 4000, [10, 0, 0, 2]⟩ = some (.multi m) :=
    rfl
  obtain ⟨e, he, hsel⟩ := m.selectEndpoint_mem sum32 (show 0 < 1 from Nat.one_pos)
    (show 1 < 2 ^ 32 by decide) ⟨80, [10, 0, 0, 1], 4000, [10, 0, 0, 2]⟩
  rw [List.mem_singleton.mp he] at hsel
  refine ⟨rfl, ?_⟩
  rw [TransportDemuxer.deliverPacket_of_find sum32 hp (by decide) (by decide) rfl hfind,
    Entry.handlePacket, if_neg (by decide), hsel]
  rfl

end ContainerFS.Stack
