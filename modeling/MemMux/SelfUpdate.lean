/-
MemMux/SelfUpdate.lean

The self-update (`memmux/src/update.rs`): which release is newer.

`parse_semver` cuts a tag at the first mark of a suffix, so a release and its pre-releases are one
version to it; `isNewer_spec` says what is left of semantic precedence.
-/
import MemMux.Budget
import MemMux.SemVer

namespace MemMux.SelfUpdate

open Decimal SemVer

/-! ### Versions -/

/-- Parse a `vMAJOR.MINOR.PATCH` (or without the `v`) tag into a comparable tuple. -/
def parseSemver (tag : String) : Option (Nat × Nat × Nat) := do
  let core := tag.toList.dropWhile (· == 'v')
  let core := core.takeWhile fun c => !(c == '-' || c == '+')
  let parts := core.splitOn '.'
  let maj ← parts[0]?.bind (parseUnsigned u64Size)
  let min ← parts[1]?.bind (parseUnsigned u64Size)
  let patch ← parts[2]?.bind (parseUnsigned u64Size)
  some (maj, min, patch)

/-- Whether `latest` is a strictly newer version than `current`; tuples are compared from the left. -/
def isNewer (latest current : String) : Bool :=
  match parseSemver latest, parseSemver current with
  | some l, some c => coreLt c l
  | _, _ => false

/-- A version as a tag, with or without a leading `v`. -/
def tagOf (v : Bool) (a : Version) : String :=
  String.ofList ((if v then ['v'] else []) ++ a.print)

/-- The numbers of the version are `u64`. -/
def Fits (a : Version) : Prop := a.major < u64Size ∧ a.minor < u64Size ∧ a.patch < u64Size

instance (a : Version) : Decidable (Fits a) := inferInstanceAs (Decidable (_ ∧ _ ∧ _))

/-- The three numbers with their dots. -/
def coreText (a : Version) : List Char :=
  Nat.toDigits 10 a.major ++ '.' :: (Nat.toDigits 10 a.minor ++ '.' :: Nat.toDigits 10 a.patch)

theorem not_mem_toDigits {c : Char} (h : c.isDigit = false) (n : Nat) : c ∉ Nat.toDigits 10 n := by
  intro hmem
  rw [isDigit_of_mem_toDigits hmem] at h
  cases h

theorem mem_coreText {a : Version} {c : Char} (h : c ∈ coreText a) : c.isDigit ∨ c = '.' := by
  rcases List.mem_append.mp h with h | h
  · exact .inl (isDigit_of_mem_toDigits h)
  · rcases List.mem_cons.mp h with h | h
    · exact .inr h
    · rcases List.mem_append.mp h with h | h
      · exact .inl (isDigit_of_mem_toDigits h)
      · rcases List.mem_cons.mp h with h | h
        · exact .inr h
        · exact .inl (isDigit_of_mem_toDigits h)

/-- The leading `v` is trimmed and the suffix cut off. -/
theorem core_tagOf (v : Bool) (a : Version) :
    (((tagOf v a).toList.dropWhile (· == 'v')).takeWhile fun c => !(c == '-' || c == '+'))
      = coreText a := by
  have hdrop : (tagOf v a).toList.dropWhile (· == 'v') = a.print := by
    obtain ⟨d, ds, hd, heq⟩ := toDigits_eq_cons a.major
    have hne : d ≠ 'v' := by
      rintro rfl
      cases hd
    have hprint : a.print.dropWhile (· == 'v') = a.print := by
      rw [Version.print, heq, List.cons_append, List.dropWhile_cons_of_neg (by simpa using hne)]
    rw [tagOf, String.toList_ofList]
    cases v with
    | false => exact hprint
    | true => exact hprint
  have hcore : ∀ c ∈ coreText a, (!(c == '-' || c == '+')) = true := by
    intro c hc
    have hmark : c ≠ '-' ∧ c ≠ '+' := by
      constructor <;> rintro rfl <;> exact absurd (mem_coreText hc) (by decide)
    simpa using hmark
  have hprint : a.print = coreText a ++ a.suffix := by
    simp [Version.print, coreText]
  rw [hdrop, hprint, List.takeWhile_append_of_pos hcore]
  rcases a.suffix_eq with hnil | ⟨c, rest, hc, hsuffix⟩
  · rw [hnil, List.takeWhile_nil, List.append_nil]
  · rw [hsuffix, List.takeWhile_cons_of_neg, List.append_nil]
    rcases hc with rfl | rfl <;> decide

/-- **What the parser makes of a version**: its three numbers, if they are in range. -/
theorem parseSemver_tagOf (v : Bool) (a : Version) :
    parseSemver (tagOf v a) = if Fits a then some a.core else none := by
  have hdot : ∀ n : Nat, '.' ∉ Nat.toDigits 10 n := not_mem_toDigits (by decide)
  have hparts : (coreText a).splitOn '.'
      = [Nat.toDigits 10 a.major, Nat.toDigits 10 a.minor, Nat.toDigits 10 a.patch] := by
    rw [coreText, List.splitOn_append_cons_self_of_not_mem (hdot _),
      List.splitOn_append_cons_self_of_not_mem (hdot _), List.splitOn_eq_singleton (hdot _)]
  unfold parseSemver
  dsimp only
  rw [core_tagOf, hparts]
  simp only [List.getElem?_cons_zero, List.getElem?_cons_succ, Option.bind_some,
    parseUnsigned_toDigits, Option.bind_eq_bind, Fits, Version.core]
  by_cases hmaj : a.major < u64Size
  · by_cases hmin : a.minor < u64Size
    · by_cases hpatch : a.patch < u64Size <;> simp [hmaj, hmin, hpatch]
    · simp [hmin]
  · simp [hmaj]

theorem isNewer_tagOf (v w : Bool) (a b : Version) :
    isNewer (tagOf v a) (tagOf w b) ↔ Fits a ∧ Fits b ∧ coreLt b.core a.core := by
  unfold isNewer
  rw [parseSemver_tagOf, parseSemver_tagOf]
  by_cases ha : Fits a <;> by_cases hb : Fits b <;> simp [ha, hb]

theorem isNewer_iff {latest current : String} : isNewer latest current ↔
    ∃ l c, parseSemver latest = some l ∧ parseSemver current = some c ∧ coreLt c l := by
  unfold isNewer
  rcases parseSemver latest with - | l <;> rcases parseSemver current with - | c <;> simp

/-- No string is newer than itself. -/
theorem isNewer_irrefl (s : String) : isNewer s s = false := by
  rw [← Bool.not_eq_true, isNewer_iff]
  rintro ⟨l, c, hl, hc, hlt⟩
  rw [hl] at hc
  exact coreLt_irrefl c (Option.some.inj hc ▸ hlt)

theorem isNewer_trans {r s t : String} (hrs : isNewer r s) (hst : isNewer s t) : isNewer r t := by
  obtain ⟨a, b, ha, hb, hba⟩ := isNewer_iff.mp hrs
  obtain ⟨b', c, hb', hc, hcb⟩ := isNewer_iff.mp hst
  rw [hb] at hb'
  exact isNewer_iff.mpr ⟨a, c, ha, hc, coreLt_trans hcb (Option.some.inj hb' ▸ hba)⟩

/-- **What `is_newer` compares**: for all versions whose numbers are `u64`, with or without a
leading `v` and with any suffixes, it holds exactly when the numbers of the left one are greater,
compared from the first to the last; a version with a greater number is newer than nothing and
older than nothing.  So it decides semantic precedence wherever the numbers differ, a release is not
newer than a pre-release of its own, and it is a strict order. -/
theorem isNewer_spec :
    (∀ (v w : Bool) (a b : Version),
      (isNewer (tagOf v a) (tagOf w b) ↔ Fits a ∧ Fits b ∧ coreLt b.core a.core) ∧
      (Fits a → Fits b → a.core ≠ b.core →
        (isNewer (tagOf v a) (tagOf w b) ↔ b.Precedes a)) ∧
      (a.core = b.core → isNewer (tagOf v a) (tagOf w b) = false)) ∧
    (∀ s, isNewer s s = false) ∧
    ∀ r s t, isNewer r s → isNewer s t → isNewer r t := by
  refine ⟨fun v w a b => ⟨isNewer_tagOf v w a b, fun ha hb hne => ?_, fun heq => ?_⟩,
    isNewer_irrefl, fun r s t => isNewer_trans⟩
  · rw [isNewer_tagOf, Version.precedes_iff_of_core_ne (Ne.symm hne)]
    exact ⟨fun h => h.2.2, fun h => ⟨ha, hb, h⟩⟩
  · rw [← Bool.not_eq_true, isNewer_tagOf, heq]
    exact fun h => coreLt_irrefl _ h.2.2

/-- A release. -/
def release030 : Version := ⟨0, 3, 0, [], []⟩

/-- A release candidate of it. -/
def candidate030 : Version := ⟨0, 3, 0, [.textual "rc1".toList (by decide) (by decide)], []⟩

/-- A later release, against a candidate of the earlier one. -/
theorem isNewer_spec_patch :
    isNewer (tagOf true ⟨0, 3, 1, [], []⟩) (tagOf false candidate030) ↔
      candidate030.Precedes ⟨0, 3, 1, [], []⟩ :=
  (isNewer_spec.1 true false ⟨0, 3, 1, [], []⟩ candidate030).2.1 (by decide) (by decide) (by decide)

/-- `v0.3.0` has precedence over `v0.3.0-rc1`, and is not newer. -/
theorem release_not_newer :
    (tagOf true release030 = "v0.3.0" ∧ tagOf true candidate030 = "v0.3.0-rc1" ∧
      candidate030.Precedes release030 ∧ isNewer "v0.3.0" "v0.3.0-rc1" = false) ∧
    ¬ ∀ (v w : Bool) (a b : Version), isNewer (tagOf v a) (tagOf w b) ↔ b.Precedes a := by
  have hpre : candidate030.Precedes release030 :=
    .inr ⟨rfl, List.cons_ne_nil _ _, .inl rfl⟩
  have hnot : isNewer (tagOf true release030) (tagOf true candidate030) = false := by decide
  refine ⟨⟨by decide, by decide, hpre, hnot⟩, fun h => ?_⟩
  rw [(h true true release030 candidate030).mpr hpre] at hnot
  cases hnot

end MemMux.SelfUpdate
