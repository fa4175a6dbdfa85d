import Mathlib.Logic.Relation
import ContainerFS.Mm.Accounting

/-!
Tasks that share one address space and call `Brk` at the same time. `Brk` holds `mappingMu`
for its checks and its change of the heap (`brkLocked`), and releases it before it stores the
new end of the brk (`setBrkEnd`). So a call is two atomic steps, and another task's call can
run between them. A task on its own runs as the sequential `Brk` (`runs_single_iff`).

Two tasks can leave the brk's end below a heap page that one of them mapped. A shrinking call
unmaps the pages above its new end. A growing call then reads the old end, which has not yet
been stored, and maps from there. The shrinking call stores its end last. Neither order of the
two calls reaches that state (`brk_race_not_linearizable`).
-/

namespace ContainerFS.Mm

/-- Where a task's call to `Brk` is. -/
inductive BrkCall where
  /-- about to take `mappingMu` -/
  | enter (addr : ℕ)
  /-- `mappingMu` released, with `addr` still to be stored as the brk's end -/
  | store (addr : ℕ)
  /-- returned the brk's end and the error, if any -/
  | returned (brkEnd : ℕ) (err : Option Errno)
  deriving DecidableEq

/-- A memory manager and the `Brk` calls of the tasks that share it. -/
structure BrkTasks where
  mm : MemoryManager
  calls : List BrkCall

namespace BrkTasks

/-- What a call holds after `brkLocked` returned `r`: the error it returns, or the end it has
still to store. -/
def afterLocked (addr : ℕ) : Option (ℕ × Errno) → BrkCall
  | some (brkEnd, e) => .returned brkEnd (some e)
  | none => .store addr

/-- The next atomic step of task `t`, if it has one. -/
def step (ctx : Ctx) (s : BrkTasks) (t : ℕ) : Option (Except Panic BrkTasks) :=
  match s.calls[t]? with
  | some (.enter addr) =>
    some ((s.mm.brkLocked ctx addr).map fun res => ⟨res.1, s.calls.set t (afterLocked addr res.2)⟩)
  | some (.store addr) => some (.ok ⟨s.mm.setBrkEnd addr, s.calls.set t (.returned addr none)⟩)
  | _ => none

/-- `s` reaches `s'` by steps of its tasks, in any order. -/
def Runs (ctx : Ctx) : BrkTasks → BrkTasks → Prop :=
  Relation.ReflTransGen fun s s' => ∃ t, s.step ctx t = some (.ok s')

variable {ctx : Ctx} {s s' : BrkTasks} {t : ℕ}

/-- What a step can do: a call enters and runs `brkLocked`, or a call stores its end. -/
theorem step_eq_ok (h : s.step ctx t = some (.ok s')) :
    (∃ addr mm1 r, s.calls[t]? = some (.enter addr) ∧ s.mm.brkLocked ctx addr = .ok (mm1, r) ∧
      s' = ⟨mm1, s.calls.set t (afterLocked addr r)⟩) ∨
    (∃ addr, s.calls[t]? = some (.store addr) ∧
      s' = ⟨s.mm.setBrkEnd addr, s.calls.set t (.returned addr none)⟩) := by
  unfold step at h
  split at h
  · rename_i addr _
    simp only [Option.some.injEq] at h
    obtain ⟨⟨mm1, r⟩, hl, hres⟩ := exists_of_map_eq_ok h
    exact .inl ⟨addr, mm1, r, ‹_›, hl, hres.symm⟩
  · rename_i addr _
    simp only [Option.some.injEq, Except.ok.injEq] at h
    exact .inr ⟨addr, ‹_›, h.symm⟩
  · cases h

/-- Every call has returned. -/
def Done (s : BrkTasks) : Prop := ∀ c ∈ s.calls, ∃ brkEnd err, c = .returned brkEnd err

theorem step_of_done (hs : s.Done) (t : ℕ) : s.step ctx t = none := by
  -- the call at `t`, if any, has returned, so neither step of a call applies
  have hret : ∀ c, s.calls[t]? = some c → ∃ brkEnd err, c = .returned brkEnd err :=
    fun c hc => hs c (List.mem_of_getElem? hc)
  unfold step
  split
  · obtain ⟨_, _, h⟩ := hret _ ‹_›
    cases h
  · obtain ⟨_, _, h⟩ := hret _ ‹_›
    cases h
  · rfl

/-- Once every call has returned, nothing moves. -/
theorem Runs.eq_of_done (h : Runs ctx s s') (hs : s.Done) : s' = s := by
  rcases Relation.ReflTransGen.cases_head h with rfl | ⟨c, ⟨t, hstep⟩, -⟩
  · rfl
  · rw [step_of_done hs t] at hstep
    cases hstep

theorem done_single (brkEnd : ℕ) (err : Option Errno) (mm : MemoryManager) :
    Done ⟨mm, [.returned brkEnd err]⟩ := by
  intro c hc
  rw [List.mem_singleton.mp hc]
  exact ⟨brkEnd, err, rfl⟩

/-- A task on its own makes its two steps, or one when `brkLocked` fails. -/
theorem runs_single_of_brkCall {mm mm' : MemoryManager} {addr brkEnd : ℕ} {err : Option Errno}
    (h : mm.brkCall ctx addr = .ok (mm', brkEnd, err)) :
    Runs ctx ⟨mm, [.enter addr]⟩ ⟨mm', [.returned brkEnd err]⟩ := by
  obtain ⟨⟨mm1, r⟩, hl, hres⟩ := exists_of_map_eq_ok h
  have hstep : step ctx ⟨mm, [.enter addr]⟩ 0 = some (.ok ⟨mm1, [afterLocked addr r]⟩) := by
    simp [step, hl, Except.map]
  refine Relation.ReflTransGen.head ⟨0, hstep⟩ ?_
  rcases r with _ | ⟨e, er⟩ <;> cases hres
  · -- the end is stored after `mappingMu` is released
    exact Relation.ReflTransGen.single ⟨0, rfl⟩
  · exact Relation.ReflTransGen.refl

theorem singleton_getElem? {c c' : BrkCall} (h : [c][t]? = some c') : t = 0 ∧ c = c' := by
  rcases t with _ | t
  · simpa using h
  · simp at h

/-- The refinement of the sequential `Brk` by a task on its own: its run returns exactly
what `Brk` returns, and leaves the memory manager `Brk` leaves. -/
theorem runs_single_iff {mm mm' : MemoryManager} {addr brkEnd : ℕ} {err : Option Errno} :
    Runs ctx ⟨mm, [.enter addr]⟩ ⟨mm', [.returned brkEnd err]⟩ ↔
      mm.brkCall ctx addr = .ok (mm', brkEnd, err) := by
  refine ⟨fun h => ?_, runs_single_of_brkCall⟩
  rcases Relation.ReflTransGen.cases_head h with heq | ⟨c, ⟨t, hstep⟩, hrest⟩
  · cases heq
  -- the task's only call enters first
  rcases step_eq_ok hstep with ⟨addr', mm1, r, ht, hl, rfl⟩ | ⟨addr', ht, -⟩
  swap
  · cases (singleton_getElem? ht).2
  obtain ⟨rfl, hc⟩ := singleton_getElem? ht
  cases hc
  rcases r with _ | ⟨e, er⟩
  · -- then it stores its end, and has returned
    rcases Relation.ReflTransGen.cases_head hrest with heq | ⟨c', ⟨t', hstep'⟩, hrest'⟩
    · cases heq
    rcases step_eq_ok hstep' with ⟨_, _, _, ht', -, -⟩ | ⟨addr'', ht', rfl⟩
    · cases (singleton_getElem? ht').2
    obtain ⟨rfl, hc⟩ := singleton_getElem? ht'
    cases hc
    cases Runs.eq_of_done hrest' (done_single _ _ _)
    rw [MemoryManager.brkCall, hl]
    rfl
  · -- or `brkLocked` failed, and it has returned the error
    cases Runs.eq_of_done hrest (done_single _ _ _)
    rw [MemoryManager.brkCall, hl]
    rfl

end BrkTasks

open BrkTasks

/-- Two tasks sharing a heap `[0x10000, 0x12000)` call `Brk(0x11000)` and `Brk(0x13000)`. The
first unmaps `[0x11000, 0x12000)` and releases `mappingMu`; the second reads the end
`0x12000`, which the first has not yet stored, maps `[0x12000, 0x13000)` and stores `0x13000`;
the first then stores `0x11000`. Both calls succeed, and the heap page `[0x12000, 0x13000)`
stays mapped above the brk's end `0x11000`. The two orders of the calls leave the one heap
vma `[0x10000, 0x13000)` and `[0x10000, 0x11000)`. -/
theorem brk_race_not_linearizable :
    ∃ (ctx : Ctx) (mm : MemoryManager) (s : BrkTasks), Reachable mm ∧
      Runs ctx ⟨mm, [.enter 0x11000, .enter 0x13000]⟩ s ∧
      s.calls = [.returned 0x11000 none, .returned 0x13000 none] ∧
      s.mm.brk = ⟨0x10000, 0x11000⟩ ∧
      s.mm.vmas.map Prod.fst = [⟨0x10000, 0x11000⟩, ⟨0x12000, 0x13000⟩] ∧
      ((mm.brkCall ctx 0x11000).bind fun r => r.1.brkCall ctx 0x13000).map
        (fun r => r.1.vmas.map Prod.fst) = .ok [⟨0x10000, 0x13000⟩] ∧
      ((mm.brkCall ctx 0x13000).bind fun r => r.1.brkCall ctx 0x11000).map
        (fun r => r.1.vmas.map Prod.fst) = .ok [⟨0x10000, 0x11000⟩] := by
  let ctx : Ctx := ⟨UInt64.ofNat (2 ^ 64 - 1), 0, UInt64.ofNat (2 ^ 64 - 1), false, false, false⟩
  have hmm : Reachable _ := .step ctx (.brk 0x12000)
    (.step ctx (.brkSetup 0x10000) (.new ⟨0x1000, 2 ^ 47, 0x1000, 2 ^ 46, .bottomUp⟩) rfl) rfl
  -- the first task's locked part, the second task's two steps, the first task's store
  exact ⟨ctx, _, _, hmm, .head ⟨0, rfl⟩ (.head ⟨1, rfl⟩ (.head ⟨1, rfl⟩ (.single ⟨0, rfl⟩))),
    rfl, rfl, rfl, rfl, rfl⟩

end ContainerFS.Mm
