/-
MemMux/SemVer.lean

Semantic versions: what they are, how they are written, and which of two has precedence.

A version is three numbers, a list of pre-release identifiers and a list of build identifiers.
Precedence compares the numbers first; among versions of the same numbers one with pre-release
identifiers comes before the one without, and two lists of them are compared identifier by
identifier.  Build identifiers do not count.
-/
import MemMux.Decimal

namespace SemVer

/-! ### Versions -/

/-- A character of an identifier. -/
def isIdentChar (c : Char) : Bool := c.isAlphanum || c == '-'

/-- A pre-release identifier: a number, or a text that is not all digits. -/
inductive Identifier where
  | numeric (n : Nat)
  | textual (cs : List Char) (chars : cs.all isIdentChar) (nonDigit : cs.any fun c => !c.isDigit)
  deriving DecidableEq, Repr

/-- A build identifier. -/
structure BuildIdentifier where
  cs : List Char
  chars : cs.all isIdentChar
  nonempty : cs ≠ []
  deriving DecidableEq, Repr

structure Version where
  major : Nat
  minor : Nat
  patch : Nat
  pre : List Identifier
  build : List BuildIdentifier
  deriving DecidableEq, Repr

/-! ### Text -/

def Identifier.text : Identifier → List Char
  | .numeric n => Nat.toDigits 10 n
  | .textual cs _ _ => cs

namespace Version

/-- What follows the three numbers. -/
def suffix (v : Version) : List Char :=
  (if v.pre = [] then [] else '-' :: ['.'].intercalate (v.pre.map (·.text)))
    ++ (if v.build = [] then [] else '+' :: ['.'].intercalate (v.build.map (·.cs)))

def print (v : Version) : List Char :=
  Nat.toDigits 10 v.major ++ '.' :: (Nat.toDigits 10 v.minor ++ '.' ::
    (Nat.toDigits 10 v.patch ++ v.suffix))

/-- A suffix begins with one of its marks. -/
theorem suffix_eq (v : Version) :
    v.suffix = [] ∨ ∃ c rest, (c = '-' ∨ c = '+') ∧ v.suffix = c :: rest := by
  unfold suffix
  by_cases hpre : v.pre = []
  · by_cases hbuild : v.build = []
    · left
      rw [if_pos hpre, if_pos hbuild, List.append_nil]
    · right
      rw [if_pos hpre, if_neg hbuild]
      exact ⟨'+', _, .inr rfl, List.nil_append _⟩
  · right
    rw [if_neg hpre]
    exact ⟨'-', _, .inl rfl, List.cons_append⟩

/-! ### Precedence -/

/-- The three numbers. -/
def core (v : Version) : Nat × Nat × Nat := (v.major, v.minor, v.patch)

end Version

/-- The numbers are compared from the first to the last. -/
def coreLt (a b : Nat × Nat × Nat) : Prop :=
  a.1 < b.1 ∨ a.1 = b.1 ∧ (a.2.1 < b.2.1 ∨ a.2.1 = b.2.1 ∧ a.2.2 < b.2.2)

instance (a b : Nat × Nat × Nat) : Decidable (coreLt a b) :=
  inferInstanceAs (Decidable (_ ∨ _ ∧ (_ ∨ _ ∧ _)))

/-- Numbers are compared as numbers and come before texts, which are compared by their characters. -/
def Identifier.Precedes : Identifier → Identifier → Prop
  | .numeric m, .numeric n => m < n
  | .numeric _, .textual _ _ _ => True
  | .textual _ _ _, .numeric _ => False
  | .textual cs _ _, .textual ds _ _ => List.Lex (· < ·) cs ds

/-- A release comes after its pre-releases; of two lists, the shorter comes first where they agree as
far as it goes. -/
def prePrecedes (p q : List Identifier) : Prop :=
  p ≠ [] ∧ (q = [] ∨ List.Lex Identifier.Precedes p q)

/-- The left version has lower precedence. -/
def Version.Precedes (a b : Version) : Prop :=
  coreLt a.core b.core ∨ a.core = b.core ∧ prePrecedes a.pre b.pre

theorem coreLt_irrefl (a : Nat × Nat × Nat) : ¬coreLt a a := by
  unfold coreLt
  omega

theorem coreLt_trans {a b c : Nat × Nat × Nat} (hab : coreLt a b) (hbc : coreLt b c) :
    coreLt a c := by
  unfold coreLt at *
  omega

/-- Where the numbers differ, they decide. -/
theorem Version.precedes_iff_of_core_ne {a b : Version} (h : a.core ≠ b.core) :
    a.Precedes b ↔ coreLt a.core b.core := by
  constructor
  · rintro (hlt | ⟨heq, -⟩)
    · exact hlt
    · exact absurd heq h
  · exact .inl

end SemVer
