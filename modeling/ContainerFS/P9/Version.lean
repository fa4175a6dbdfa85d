import Mathlib

/-!
The version strings of the p9 protocol (`version.go`). `versionString`
prints a version number as `9P2000.L`, for version 0, or
`9P2000.L.Google.X`; `parseVersion` reads one back, splitting at the dots
and reading `X` with `strconv.ParseUint(X, 10, 32)`.

A Go string is read as its characters; the dot is a one-byte character, so
splitting the characters at it is splitting the bytes.
-/

namespace ContainerFS.P9

def baseVersion : String := "9P2000.L"

/-- The errors of `strconv.ParseUint`. -/
inductive NumError where
  | errSyntax
  | errRange
  deriving DecidableEq, Repr

/-- The digit loop of `strconv.ParseUint` in base 10 with a bit size of 32:
a character that is no digit is a syntax error, a value past `2^32 - 1` a
range error. -/
def parseUintLoop : ℕ → List Char → Except NumError ℕ
  | n, [] => .ok n
  | n, c :: cs =>
    if c.isDigit then
      let n1 := n * 10 + (c.toNat - '0'.toNat)
      if 2 ^ 32 - 1 < n1 then .error .errRange else parseUintLoop n1 cs
    else .error .errSyntax

/-- `strconv.ParseUint(s, 10, 32)`: no sign and no underscore in base 10. -/
def parseUint32 (s : List Char) : Except NumError ℕ :=
  if s = [] then .error .errSyntax else parseUintLoop 0 s

def parseVersion (str : String) : UInt32 × Bool :=
  if str = baseVersion then (0, true)
  else
    match str.toList.splitOn '.' with
    | [s0, s1, s2, s3] =>
      if s0 ≠ "9P2000".toList ∨ s1 ≠ "L".toList ∨ s2 ≠ "Google".toList ∨ s3.length = 0 then
        (0, false)
      else
        match parseUint32 s3 with
        | .ok version => (version.toUInt32, true)
        | .error _ => (0, false)
    | _ => (0, false)

/-- `versionString`: `fmt.Sprintf("9P2000.L.Google.%d", version)` past the
base version. -/
def versionString (version : UInt32) : String :=
  if version = 0 then baseVersion else "9P2000.L.Google." ++ version.toNat.repr

/-- The strings that name a version and the version they name: the base
version, 0, or the Google prefix followed by decimal digits whose value fits
32 bits. -/
def VersionOf (s : String) (v : ℕ) : Prop :=
  (s = baseVersion ∧ v = 0) ∨
    ∃ digits : List Char, s.toList = "9P2000.L.Google.".toList ++ digits ∧ digits ≠ [] ∧
      (∀ c ∈ digits, c.isDigit = true) ∧ v = Nat.ofDigitChars 10 digits 0 ∧ v < 2 ^ 32

theorem le_ofDigitChars (cs : List Char) (init : ℕ) : init ≤ Nat.ofDigitChars 10 cs init := by
  rw [Nat.ofDigitChars_eq_ofDigitChars_zero]
  have := Nat.one_le_pow cs.length 10 (by decide)
  nlinarith

/-- On digits whose value fits, the loop returns that value. -/
theorem parseUintLoop_of_digits : ∀ (cs : List Char) (n : ℕ), (∀ c ∈ cs, c.isDigit = true) →
    Nat.ofDigitChars 10 cs n < 2 ^ 32 → parseUintLoop n cs = .ok (Nat.ofDigitChars 10 cs n)
  | [], n, _, _ => rfl
  | c :: cs, n, hd, hlt => by
    rw [Nat.ofDigitChars_cons] at hlt ⊢
    -- the value read so far never passes the value of all the digits
    have hle := le_ofDigitChars cs (10 * n + (c.toNat - '0'.toNat))
    have hc := hd c List.mem_cons_self
    simp only [parseUintLoop, hc, if_true, Nat.mul_comm n 10]
    rw [if_neg (by omega)]
    exact parseUintLoop_of_digits cs _ (fun c' hc' => hd c' (List.mem_cons_of_mem c hc')) hlt

/-- What the loop accepts is digits whose value fits, and it returns that
value. -/
theorem digits_of_parseUintLoop : ∀ (cs : List Char) (n m : ℕ), n < 2 ^ 32 →
    parseUintLoop n cs = .ok m →
      (∀ c ∈ cs, c.isDigit = true) ∧ m = Nat.ofDigitChars 10 cs n ∧ m < 2 ^ 32
  | [], n, m, hn, h => by
    simp only [parseUintLoop, Except.ok.injEq] at h
    subst h
    exact ⟨by simp, by simp, hn⟩
  | c :: cs, n, m, hn, h => by
    simp only [parseUintLoop] at h
    split_ifs at h with hc hrange
    obtain ⟨hd, hm, hlt⟩ := digits_of_parseUintLoop cs _ m (by omega) h
    refine ⟨?_, ?_, hlt⟩
    · intro c' hc'
      rcases List.mem_cons.mp hc' with rfl | hc'
      · exact hc
      · exact hd c' hc'
    · rw [Nat.ofDigitChars_cons, hm, Nat.mul_comm n 10]

/-- A version string past the base version is its three fixed parts and its
number, joined by dots. -/
theorem toList_google (digits : List Char) :
    "9P2000.L.Google.".toList ++ digits =
      ['.'].intercalate ["9P2000".toList, "L".toList, "Google".toList, digits] := by
  simp [List.intercalate]

/-- `parseVersion` reads every string that names a version as that version. -/
theorem parseVersion_of_versionOf {s : String} {v : ℕ} (h : VersionOf s v) :
    parseVersion s = (v.toUInt32, true) := by
  rcases h with ⟨rfl, rfl⟩ | ⟨digits, hs, hne, hd, rfl, hlt⟩
  · simp [parseVersion]
  · -- the string is longer than the base version
    have hbase : s ≠ baseVersion := by
      rintro rfl
      have hlen := congrArg List.length hs
      simp [baseVersion] at hlen
    have hdot : '.' ∉ digits := fun hmem => by simpa using hd '.' hmem
    have hsplit : s.toList.splitOn '.' = ["9P2000".toList, "L".toList, "Google".toList, digits] := by
      rw [hs, toList_google]
      refine List.splitOn_intercalate '.' ?_ (by simp)
      intro l hl
      simp only [List.mem_cons, List.not_mem_nil, or_false] at hl
      rcases hl with rfl | rfl | rfl | rfl
      · decide
      · decide
      · decide
      · exact hdot
    have hparse : parseUint32 digits = .ok (Nat.ofDigitChars 10 digits 0) := by
      rw [parseUint32, if_neg hne]
      exact parseUintLoop_of_digits digits 0 hd hlt
    have hlen : digits.length ≠ 0 := by simpa using hne
    simp [parseVersion, hbase, hsplit, hlen, hparse]

/-- What `parseVersion` accepts names a version, the one it returns. -/
theorem versionOf_of_parseVersion {s : String} (h : (parseVersion s).2 = true) :
    VersionOf s (parseVersion s).1.toNat := by
  unfold parseVersion at h ⊢
  split_ifs at h ⊢ with hbase
  · exact .inl ⟨hbase, rfl⟩
  · split at h
    · next s0 s1 s2 s3 hsplit =>
      split_ifs at h ⊢ with hparts
      simp only [not_or, not_not] at hparts
      obtain ⟨rfl, rfl, rfl, hlen⟩ := hparts
      split at h
      · next version hparse =>
        have hne : s3 ≠ [] := by simpa using hlen
        rw [parseUint32, if_neg hne] at hparse
        obtain ⟨hd, rfl, hlt⟩ := digits_of_parseUintLoop s3 0 _ (by decide) hparse
        -- the string is its parts joined by dots
        have hs : s.toList = "9P2000.L.Google.".toList ++ s3 := by
          rw [toList_google, ← hsplit, List.intercalate_splitOn]
        have hlt' : Nat.ofDigitChars 10 s3 0 < 4294967296 := hlt
        have hv : (Nat.ofDigitChars 10 s3 0).toUInt32.toNat = Nat.ofDigitChars 10 s3 0 := by
          simp [Nat.mod_eq_of_lt hlt']
        rw [hv]
        exact .inr ⟨s3, hs, hne, hd, rfl, hlt⟩
      · simp at h
    · simp at h

/-- `versionString` prints every version as a string that names it. -/
theorem versionOf_versionString (v : UInt32) : VersionOf (versionString v) v.toNat := by
  unfold versionString
  split_ifs with hv
  · exact .inl ⟨rfl, by simp [hv]⟩
  · refine .inr ⟨Nat.toDigits 10 v.toNat, by simp, Nat.toDigits_ne_nil,
      fun c hc => Nat.isDigit_of_mem_toDigits (by decide) (by decide) hc,
      Nat.ofDigitChars_ten_toDigits.symm, v.toNat_lt⟩

/-- `parseVersion` inverts `versionString`, and accepts exactly the strings
that name a version: `9P2000.L`, read as 0, and `9P2000.L.Google.` followed by
decimal digits whose value is below `2^32`, read as that value. -/
theorem parseVersion_versionString_iff :
    (∀ v : UInt32, parseVersion (versionString v) = (v, true)) ∧
      ∀ s : String, ((parseVersion s).2 = true ↔ ∃ v, VersionOf s v) ∧
        ∀ v, VersionOf s v → parseVersion s = (v.toUInt32, true) := by
  refine ⟨fun v => ?_, fun s => ⟨⟨fun h => ⟨_, versionOf_of_parseVersion h⟩, ?_⟩,
    fun v h => parseVersion_of_versionOf h⟩⟩
  · rw [parseVersion_of_versionOf (versionOf_versionString v)]
    simp
  · rintro ⟨v, h⟩
    simp [parseVersion_of_versionOf h]

end ContainerFS.P9
