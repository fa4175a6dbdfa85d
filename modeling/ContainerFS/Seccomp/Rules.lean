import ContainerFS.Seccomp.Build

/-!
`SyscallRules.AddRule` and `SyscallRules.Merge` (`seccomp_rules.go`). A rule
map sends a syscall number to the rules any of which lets the call through;
an empty list lets every call through, so both operations put the rule that
checks nothing, `Rule{}`, in front of what they add to an empty list.

What a map allows is `allows`, the condition a rule set's rules put on a call
in `RuleSet.qualifies`. Both operations are unions of what is allowed.
-/

namespace ContainerFS.Seccomp

/-- `Rule{}`: no argument checked. -/
def emptyRule : Rule := Vector.replicate 6 .nil

/-- The map with the entry of `sysno` set to `rules`, the Go assignment
`sr[sysno] = rules`: in place if there is one, else added. -/
def setRules (sr : SyscallRules) (sysno : ℕ) (rules : List Rule) : SyscallRules :=
  if (sr.lookup sysno).isSome then sr.map fun e => if e.1 = sysno then (sysno, rules) else e
  else sr ++ [(sysno, rules)]

/-- The rules kept from an entry that more rules join: an empty list, which
allows everything, gets `Rule{}` so that it still does. -/
def keepAllowAll (cur : List Rule) : List Rule :=
  if cur.isEmpty then cur ++ [emptyRule] else cur

def addRule (sr : SyscallRules) (sysno : ℕ) (r : Rule) : SyscallRules :=
  match sr.lookup sysno with
  | some cur => setRules sr sysno (keepAllowAll cur ++ [r])
  | none => setRules sr sysno [r]

/-- The body of `Merge`'s loop: the rules `rs` of `sysno` joined to the map,
an empty list standing for `Rule{}`. -/
def mergeEntry (sr : SyscallRules) (sysno : ℕ) (rs : List Rule) : SyscallRules :=
  match sr.lookup sysno with
  | some cur => setRules sr sysno (keepAllowAll cur ++ if rs.isEmpty then [emptyRule] else rs)
  | none => setRules sr sysno rs

/-- `Merge`, the loop over the entries of `rules` in the order the map gives
them. -/
def merge (sr : SyscallRules) : SyscallRules → SyscallRules
  | [] => sr
  | (sysno, rs) :: rules => merge (mergeEntry sr sysno rs) rules

/-- The calls a list of rules lets through: all when it is empty, else those
one of its rules matches. -/
def rulesAllow (rules : List Rule) (args : Vector UInt64 6) : Bool :=
  rules.isEmpty || rules.any (ruleMatches args)

/-- The calls a rule map allows: those whose syscall has an entry that lets
their arguments through. -/
def allows (sr : SyscallRules) (nr : ℕ) (args : Vector UInt64 6) : Bool :=
  match sr.lookup nr with
  | some rules => rulesAllow rules args
  | none => false

theorem ruleMatches_emptyRule (args : Vector UInt64 6) : ruleMatches args emptyRule = true := by
  simp [ruleMatches, emptyRule]

theorem lookup_cons_ite (k nr : ℕ) (v : List Rule) (sr : SyscallRules) :
    ((k, v) :: sr).lookup nr = if nr = k then some v else sr.lookup nr := by
  by_cases h : nr = k
  · subst h
    simp
  · have hne : (nr == k) = false := by simpa using h
    simp [List.lookup_cons, h, hne]

/-- The entries of `sysno` replaced in place: the lookups of other syscalls
are those of the map, that of `sysno` finds the new rules where it found an
entry. -/
theorem lookup_map_replace (sr : SyscallRules) (sysno nr : ℕ) (rules : List Rule) :
    (sr.map fun e => if e.1 = sysno then (sysno, rules) else e).lookup nr =
      if nr = sysno then (sr.lookup nr).map fun _ => rules else sr.lookup nr := by
  induction sr with
  | nil => simp
  | cons e sr ih =>
    obtain ⟨k, v⟩ := e
    by_cases hk : k = sysno
    · subst hk
      by_cases hn : nr = k <;> simp [lookup_cons_ite, hn, ih]
    · simp only [List.map_cons, if_neg hk, lookup_cons_ite, ih]
      by_cases hn : nr = k
      · subst hn
        simp [hk]
      · simp [hn]

theorem lookup_setRules_self (sr : SyscallRules) (sysno : ℕ) (rules : List Rule) :
    (setRules sr sysno rules).lookup sysno = some rules := by
  unfold setRules
  split_ifs with h
  · obtain ⟨cur, hcur⟩ := Option.isSome_iff_exists.mp h
    simp [lookup_map_replace, hcur]
  · simp only [Option.not_isSome_iff_eq_none] at h
    simp [List.lookup_append, h]

theorem lookup_setRules_of_ne (sr : SyscallRules) {sysno nr : ℕ} (h : nr ≠ sysno)
    (rules : List Rule) : (setRules sr sysno rules).lookup nr = sr.lookup nr := by
  unfold setRules
  split_ifs
  · simp [lookup_map_replace, h]
  · cases hnr : sr.lookup nr <;> simp [List.lookup_append, hnr, lookup_cons_ite, h]

/-- Setting one entry changes what is allowed for that syscall only. -/
theorem allows_setRules (sr : SyscallRules) (sysno : ℕ) (rules : List Rule) (nr : ℕ)
    (args : Vector UInt64 6) :
    allows (setRules sr sysno rules) nr args =
      if nr = sysno then rulesAllow rules args else allows sr nr args := by
  split_ifs with h
  · subst h
    simp [allows, lookup_setRules_self]
  · simp [allows, lookup_setRules_of_ne sr h]

/-- Joining rules to a kept entry lets through what the entry let through and
what the new rules do. -/
theorem rulesAllow_keepAllowAll_append (cur rs : List Rule) (args : Vector UInt64 6)
    (hrs : rs ≠ []) :
    rulesAllow (keepAllowAll cur ++ rs) args = (rulesAllow cur args || rulesAllow rs args) := by
  unfold keepAllowAll
  split_ifs with hcur
  · -- an empty entry allowed everything, and `Rule{}` still does
    simp [rulesAllow, hcur, ruleMatches_emptyRule]
  · obtain ⟨c, cur, rfl⟩ := List.exists_cons_of_ne_nil (by simpa using hcur)
    obtain ⟨r, rs, rfl⟩ := List.exists_cons_of_ne_nil hrs
    simp [rulesAllow, List.any_append, Bool.or_assoc]

/-- An empty list of rules and `[Rule{}]` let the same calls through. -/
theorem rulesAllow_padEmpty (rs : List Rule) (args : Vector UInt64 6) :
    rulesAllow (if rs.isEmpty then [emptyRule] else rs) args = rulesAllow rs args := by
  split_ifs with h
  · simp [rulesAllow, h, ruleMatches_emptyRule]
  · rfl

theorem padEmpty_ne_nil (rs : List Rule) : (if rs.isEmpty then [emptyRule] else rs) ≠ [] := by
  split_ifs with hrs
  · exact List.cons_ne_nil _ _
  · simpa using hrs

/-- One turn of `Merge` allows what the map allowed and what the merged entry
allows for its syscall. -/
theorem allows_mergeEntry (sr : SyscallRules) (sysno : ℕ) (rs : List Rule) (nr : ℕ)
    (args : Vector UInt64 6) :
    allows (mergeEntry sr sysno rs) nr args =
      (allows sr nr args || (nr == sysno && rulesAllow rs args)) := by
  unfold mergeEntry
  by_cases h : nr = sysno
  · subst h
    cases hcur : sr.lookup nr with
    | none =>
      rw [allows_setRules, if_pos rfl]
      simp [allows, hcur]
    | some cur =>
      -- the kept entry and the padded rules: what each allowed
      rw [allows_setRules, if_pos rfl,
        rulesAllow_keepAllowAll_append cur _ args (padEmpty_ne_nil rs), rulesAllow_padEmpty]
      simp [allows, hcur]
  · cases sr.lookup sysno <;> simp [allows_setRules, h]

/-- `AddRule` is the turn of `Merge` for the one rule `r`. -/
theorem addRule_eq_mergeEntry (sr : SyscallRules) (sysno : ℕ) (r : Rule) :
    addRule sr sysno r = mergeEntry sr sysno [r] := by
  unfold addRule mergeEntry
  cases sr.lookup sysno <;> rfl

/-- `Merge` allows what either map allowed; the merged map's keys are distinct,
as a Go map's are, so each syscall has one entry to join. -/
theorem allows_merge (sr rules : SyscallRules) (hkeys : (rules.map Prod.fst).Nodup) (nr : ℕ)
    (args : Vector UInt64 6) :
    allows (merge sr rules) nr args = (allows sr nr args || allows rules nr args) := by
  induction rules generalizing sr with
  | nil => simp [merge, allows]
  | cons e rules ih =>
    obtain ⟨sysno, rs⟩ := e
    simp only [List.map_cons, List.nodup_cons] at hkeys
    rw [merge, ih _ hkeys.2, allows_mergeEntry]
    by_cases h : nr = sysno
    · -- no later entry names `sysno`, so the rest allows nothing of it
      subst h
      have hnone : rules.lookup nr = none := by
        rw [List.lookup_eq_none_iff]
        intro p hp
        have hp1 : p.1 ≠ nr := fun hp1 => hkeys.1 (hp1 ▸ List.mem_map_of_mem hp)
        exact bne_iff_ne.mpr (Ne.symm hp1)
      simp [allows, hnone]
    · have hne : (nr == sysno) = false := by simpa using h
      simp [allows, lookup_cons_ite, h, hne]

/-- What a rule map allows after `Merge` or `AddRule` is the union of what it
allowed and what was added. -/
theorem merge_addRule_allows (sr rs : SyscallRules) (hrs : (rs.map Prod.fst).Nodup) (n : ℕ)
    (r : Rule) (nr : ℕ) (args : Vector UInt64 6) :
    allows (merge sr rs) nr args = (allows sr nr args || allows rs nr args) ∧
      allows (addRule sr n r) nr args = (allows sr nr args || (nr == n && ruleMatches args r)) := by
  refine ⟨allows_merge sr rs hrs nr args, ?_⟩
  rw [addRule_eq_mergeEntry, allows_mergeEntry]
  simp [rulesAllow]

/-- `getpid` (39) merged into a map that has `futex` (202), and added to it. -/
theorem merge_addRule_allows_getpid :
    ([(39, ([] : List Rule))].map Prod.fst).Nodup ∧
      (allows (merge [(202, [emptyRule])] [(39, [])]) 39 (Vector.replicate 6 0) =
          (allows [(202, [emptyRule])] 39 (Vector.replicate 6 0) ||
            allows [(39, [])] 39 (Vector.replicate 6 0)) ∧
        allows (addRule [(202, [emptyRule])] 39 emptyRule) 39 (Vector.replicate 6 0) =
          (allows [(202, [emptyRule])] 39 (Vector.replicate 6 0) ||
            (39 == 39 && ruleMatches (Vector.replicate 6 0) emptyRule))) :=
  ⟨by decide, merge_addRule_allows _ _ (by decide) 39 emptyRule 39 _⟩

end ContainerFS.Seccomp
