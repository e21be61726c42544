/-
MemMux/BinarySwap.lean

The self-update (`memmux/src/update.rs`): replacing the installed binaries.

The two binaries are looked up, staged and renamed one after the other.  A round that fails leaves
both as they were (`swapOne_failed`); but when the second round fails, the first has been
renamed already, and `unchanged_iff` says that this is the only way a failed update changes anything.

What the system does in one attempt is data: which steps fail, and what a failed copy leaves behind.
-/
import Mathlib.Tactic.Common

namespace MemMux.BinarySwap

/-! ### The source -/

/-- A file: its bytes and its permission bits. -/
structure File where
  bytes : List UInt8
  mode : Nat
  deriving DecidableEq, Repr

/-- What stands one level down in the extracted archive. -/
inductive Inner where
  | file (f : File)
  | other
  deriving DecidableEq, Repr

/-- What stands at its top. -/
inductive Outer where
  | file (f : File)
  | dir (entries : List (String × Inner))
  | other
  deriving DecidableEq, Repr

/-- The extracted archive, as a listing shows it. -/
abbrev Tree := List (String × Outer)

/-- The directory of the installed binaries. -/
abbrev BinDir := String → Option File

/-- The file at a name, or nothing. -/
def BinDir.put (bin : BinDir) (name : String) (f : Option File) : BinDir :=
  fun n => if n = name then f else bin n

/-- What fails in the round of one binary. -/
structure Faults where
  /-- the archive's top cannot be listed -/
  list : Bool
  /-- the copy fails and leaves this where it was to go -/
  copy : Option (Option File)
  chmod : Bool
  rename : Bool
  deriving DecidableEq, Repr

inductive SwapError where
  | tempdir
  | tar
  | extract
  | createDir
  | notFound (name : String)
  | copy (name : String)
  | chmod (name : String)
  | rename (name : String)
  deriving DecidableEq, Repr

/-- The candidate in one entry. -/
def Outer.candidate (name : String) : Outer → Option File
  | .dir entries =>
      match entries.lookup name with
      | some (.file f) => some f
      | _ => none
  | _ => none

/-- Find `name` directly in `root` or one level down. -/
def findBinary (root : Tree) (faults : Faults) (name : String) : Option File :=
  match root.lookup name with
  | some (.file f) => some f
  | _ => if faults.list then none else root.findSome? fun e => e.2.candidate name

/-- Where a binary is staged. -/
def stagedName (name : String) : String := "." ++ name ++ ".new"

/-- A binary as it is installed. -/
def File.executable (f : File) : File := { f with mode := 0o755 }

/-- The round of one binary. -/
def swapOne (root : Tree) (faults : Faults) (name : String) (bin : BinDir) :
    Except SwapError Unit × BinDir :=
  match findBinary root faults name with
  | none => (.error (.notFound name), bin)
  | some src =>
      match faults.copy with
      | some left => (.error (.copy name), bin.put (stagedName name) left)
      | none =>
          let bin := bin.put (stagedName name) (some src)
          if faults.chmod then (.error (.chmod name), bin)
          else
            let bin := bin.put (stagedName name) (some src.executable)
            if faults.rename then (.error (.rename name), bin)
            else (.ok (), (bin.put name (some src.executable)).put (stagedName name) none)

/-- The loop over the binaries. -/
def swapLoop (root : Tree) (faults : String → Faults) :
    List String → List String → BinDir → Except SwapError (List String) × BinDir
  | [], installed, bin => (.ok installed, bin)
  | name :: names, installed, bin =>
      match swapOne root (faults name) name bin with
      | (.error e, bin) => (.error e, bin)
      | (.ok (), bin) => swapLoop root faults names (installed ++ [name]) bin

/-- What happens to one attempt: whether the temporary directory is made, what `tar` does (it may
not run, fail, or leave a tree), whether `bin_dir` is there, and the faults of each round. -/
structure Attempt where
  tempdir : Bool
  tar : Option (Option Tree)
  createDir : Bool
  faults : String → Faults

/-- Extract the archive and replace the binaries in `bin_dir`. -/
def swapBinaries (a : Attempt) (bin : BinDir) : Except SwapError (List String) × BinDir :=
  if a.tempdir then
    match a.tar with
    | none => (.error .tar, bin)
    | some none => (.error .extract, bin)
    | some (some root) =>
        if a.createDir then swapLoop root a.faults ["memmux", "memmuxd"] [] bin
        else (.error .createDir, bin)
  else (.error .tempdir, bin)

/-! ### One round -/

@[simp] theorem BinDir.put_self (bin : BinDir) (name : String) (f : Option File) :
    bin.put name f name = f := if_pos rfl

theorem BinDir.put_of_ne (bin : BinDir) {name n : String} (h : n ≠ name) (f : Option File) :
    bin.put name f n = bin n := if_neg h

/-- The round goes through. -/
def Completes (root : Tree) (faults : Faults) (name : String) : Prop :=
  (findBinary root faults name).isSome ∧ faults.copy = none ∧ faults.chmod = false ∧
    faults.rename = false

instance (root : Tree) (faults : Faults) (name : String) : Decidable (Completes root faults name) :=
  inferInstanceAs (Decidable (_ ∧ _ ∧ _ ∧ _))

variable {root : Tree} {faults : Faults} {name : String} {bin : BinDir}

/-- **A round that fails** touches nothing but the staged file. -/
theorem swapOne_failed (h : ¬Completes root faults name) :
    (∃ e, (swapOne root faults name bin).1 = .error e) ∧
      ∀ n, n ≠ stagedName name → (swapOne root faults name bin).2 n = bin n := by
  unfold swapOne
  rcases hsrc : findBinary root faults name with - | src
  · exact ⟨⟨_, rfl⟩, fun _ _ => rfl⟩
  · rcases hcopy : faults.copy with - | left
    · dsimp only
      split_ifs with hchmod hrename
      · exact ⟨⟨_, rfl⟩, fun n hn => BinDir.put_of_ne _ hn _⟩
      · refine ⟨⟨_, rfl⟩, fun n hn => ?_⟩
        show BinDir.put _ _ _ n = _
        rw [BinDir.put_of_ne _ hn, BinDir.put_of_ne _ hn]
      · exact absurd ⟨by rw [hsrc]; rfl, hcopy, by simpa using hchmod, by simpa using hrename⟩ h
    · exact ⟨⟨_, rfl⟩, fun n hn => BinDir.put_of_ne _ hn _⟩

/-- **A round that goes through** installs its binary and nothing else. -/
theorem swapOne_completes {src : File} (hsrc : findBinary root faults name = some src)
    (h : Completes root faults name) (hname : name ≠ stagedName name) :
    (swapOne root faults name bin).1 = .ok () ∧
      (swapOne root faults name bin).2 name = some src.executable ∧
      ∀ n, n ≠ name → n ≠ stagedName name → (swapOne root faults name bin).2 n = bin n := by
  obtain ⟨-, hcopy, hchmod, hrename⟩ := h
  unfold swapOne
  rw [hsrc, hcopy]
  dsimp only
  rw [hchmod, hrename]
  refine ⟨rfl, ?_, fun n hn hs => ?_⟩
  · show BinDir.put _ _ _ name = _
    rw [BinDir.put_of_ne _ hname, BinDir.put_self]
  · show BinDir.put _ _ _ n = _
    rw [BinDir.put_of_ne _ hs, BinDir.put_of_ne _ hn, BinDir.put_of_ne _ hs, BinDir.put_of_ne _ hs]

/-! ### The attempt -/

/-- Both installed binaries are the ones that were there before. -/
def Unchanged (before after : BinDir) : Prop :=
  after "memmux" = before "memmux" ∧ after "memmuxd" = before "memmuxd"

/-- The attempt gets to the loop, with this tree. -/
def Reaches (a : Attempt) (root : Tree) : Prop :=
  a.tempdir = true ∧ a.createDir = true ∧ a.tar = some (some root)

/-- The first binary can be installed and is another than the installed one, and the second cannot
be. -/
def HalfDone (a : Attempt) (bin : BinDir) : Prop :=
  ∃ root src, Reaches a root ∧
    findBinary root (a.faults "memmux") "memmux" = some src ∧
    Completes root (a.faults "memmux") "memmux" ∧
    ¬Completes root (a.faults "memmuxd") "memmuxd" ∧ bin "memmux" ≠ some src.executable

theorem swapBinaries_of_reaches {a : Attempt} (h : Reaches a root) :
    swapBinaries a bin = swapLoop root a.faults ["memmux", "memmuxd"] [] bin := by
  obtain ⟨ht, hc, htar⟩ := h
  rw [swapBinaries, if_pos ht, htar]
  exact if_pos hc

/-- An attempt that does not get to the loop changes nothing. -/
theorem swapBinaries_of_not_reaches {a : Attempt} (h : ¬∃ root, Reaches a root) :
    (swapBinaries a bin).2 = bin := by
  obtain ⟨tempdir, tar, createDir, faults⟩ := a
  rcases tempdir with - | -
  · rfl
  · rcases tar with - | - | root
    · rfl
    · rfl
    · rcases createDir with - | -
      · rfl
      · exact absurd ⟨root, rfl, rfl, rfl⟩ h

/-- If the first round fails, both binaries stay. -/
theorem swapLoop_of_first_failed {faults : String → Faults}
    (h : ¬Completes root (faults "memmux") "memmux") :
    Unchanged bin (swapLoop root faults ["memmux", "memmuxd"] [] bin).2 := by
  obtain ⟨⟨e, he⟩, hkeep⟩ := @swapOne_failed _ _ _ bin h
  rw [swapLoop]
  rcases hr : swapOne root (faults "memmux") "memmux" bin with ⟨res, bin'⟩
  rw [hr] at he hkeep
  subst he
  exact ⟨hkeep _ (by decide), hkeep _ (by decide)⟩

/-- The first round goes through: the attempt fails if the second does, and the first binary is
installed whatever happens. -/
theorem swapLoop_of_first_completes {faults : String → Faults} {src : File}
    (hsrc : findBinary root (faults "memmux") "memmux" = some src)
    (h : Completes root (faults "memmux") "memmux") :
    (¬Completes root (faults "memmuxd") "memmuxd" →
      (∃ e, (swapLoop root faults ["memmux", "memmuxd"] [] bin).1 = .error e) ∧
        (swapLoop root faults ["memmux", "memmuxd"] [] bin).2 "memmux" = some src.executable ∧
        (swapLoop root faults ["memmux", "memmuxd"] [] bin).2 "memmuxd" = bin "memmuxd") ∧
    (Completes root (faults "memmuxd") "memmuxd" →
      (swapLoop root faults ["memmux", "memmuxd"] [] bin).1 = .ok ["memmux", "memmuxd"]) := by
  obtain ⟨hok, hnew, hkeep⟩ := @swapOne_completes _ _ _ bin _ hsrc h (by decide)
  rw [swapLoop]
  rcases hr : swapOne root (faults "memmux") "memmux" bin with ⟨res, bin'⟩
  rw [hr] at hok hnew hkeep
  dsimp only at hok hnew hkeep
  subst hok
  dsimp only
  rw [swapLoop]
  constructor
  · intro hsecond
    obtain ⟨⟨e, he⟩, hrest⟩ := @swapOne_failed _ _ _ bin' hsecond
    rcases hr' : swapOne root (faults "memmuxd") "memmuxd" bin' with ⟨res', bin''⟩
    rw [hr'] at he hrest
    dsimp only at he hrest
    subst he
    refine ⟨⟨e, rfl⟩, ?_, ?_⟩
    · exact (hrest "memmux" (by decide)).trans hnew
    · exact (hrest "memmuxd" (by decide)).trans (hkeep "memmuxd" (by decide) (by decide))
  · intro hsecond
    obtain ⟨src', hsrc'⟩ := Option.isSome_iff_exists.mp hsecond.1
    obtain ⟨hok', -, -⟩ := @swapOne_completes _ _ _ bin' _ hsrc' hsecond (by decide)
    rcases hr' : swapOne root (faults "memmuxd") "memmuxd" bin' with ⟨res', bin''⟩
    rw [hr'] at hok'
    dsimp only at hok'
    subst hok'
    rfl

/-- **When a failed self-update changes nothing**: whatever the archive holds and whichever step
fails, an attempt that returns an error leaves both installed binaries as they were, if and only
if it is not half done: `memmux` of the archive can be installed and is another than the
installed one, and `memmuxd` cannot be. -/
theorem unchanged_iff (a : Attempt) (bin : BinDir) :
    (∀ e, (swapBinaries a bin).1 = .error e → Unchanged bin (swapBinaries a bin).2) ↔
      ¬HalfDone a bin := by
  by_cases hreach : ∃ root, Reaches a root
  · obtain ⟨root, hroot⟩ := hreach
    have hunique : ∀ {root'}, Reaches a root' → root = root' := fun h' =>
      Option.some.inj (Option.some.inj (hroot.2.2.symm.trans h'.2.2))
    rw [swapBinaries_of_reaches hroot]
    by_cases hfirst : Completes root (a.faults "memmux") "memmux"
    · obtain ⟨src, hsrc⟩ := Option.isSome_iff_exists.mp hfirst.1
      obtain ⟨hfail, hok⟩ := @swapLoop_of_first_completes _ bin _ _ hsrc hfirst
      by_cases hsecond : Completes root (a.faults "memmuxd") "memmuxd"
      · refine iff_of_true (fun e he => ?_) ?_
        · rw [hok hsecond] at he
          cases he
        · rintro ⟨root', -, hroot', -, -, hnot, -⟩
          exact hnot (hunique hroot' ▸ hsecond)
      · obtain ⟨⟨e, he⟩, hmemmux, hmemmuxd⟩ := hfail hsecond
        constructor
        · rintro h ⟨root', src', hroot', hsrc', -, -, hnew⟩
          obtain rfl := hunique hroot'
          obtain rfl := Option.some.inj (hsrc.symm.trans hsrc')
          exact hnew ((h e he).1.symm.trans hmemmux)
        · intro hnot e _
          refine ⟨?_, hmemmuxd⟩
          by_contra hne
          rw [hmemmux] at hne
          exact hnot ⟨root, src, hroot, hsrc, hfirst, hsecond, Ne.symm hne⟩
    · refine iff_of_true (fun e _ => swapLoop_of_first_failed hfirst) ?_
      rintro ⟨root', -, hroot', -, hcompletes, -, -⟩
      exact hfirst (hunique hroot' ▸ hcompletes)
  · rw [swapBinaries_of_not_reaches hreach]
    refine iff_of_true (fun e _ => ⟨rfl, rfl⟩) ?_
    rintro ⟨root, -, hroot, -⟩
    exact hreach ⟨root, hroot⟩

/-- No fault. -/
def noFaults : Faults := ⟨false, none, false, false⟩

/-- An archive without `memmuxd`, and nothing that fails. -/
def withoutDaemon : Attempt where
  tempdir := true
  tar := some (some [("memmux-v9.9.9", .dir [("memmux", .file ⟨[0x4E], 0o644⟩)])])
  createDir := true
  faults := fun _ => noFaults

/-- Two installed binaries of one version. -/
def oldBin : BinDir :=
  fun n => if n = "memmux" ∨ n = "memmuxd" then some ⟨[0x4F], 0o755⟩ else none

/-- The update fails, and `memmux` is the new one while `memmuxd` is the old one. -/
theorem withoutDaemon_mixes :
    ((swapBinaries withoutDaemon oldBin).1 = .error (.notFound "memmuxd") ∧
      (swapBinaries withoutDaemon oldBin).2 "memmux" = some ⟨[0x4E], 0o755⟩ ∧
      (swapBinaries withoutDaemon oldBin).2 "memmuxd" = some ⟨[0x4F], 0o755⟩) ∧
    ¬ ∀ (a : Attempt) (bin : BinDir) (e : SwapError), (swapBinaries a bin).1 = .error e →
      Unchanged bin (swapBinaries a bin).2 := by
  have hrun : (swapBinaries withoutDaemon oldBin).1 = .error (.notFound "memmuxd") ∧
      (swapBinaries withoutDaemon oldBin).2 "memmux" = some ⟨[0x4E], 0o755⟩ ∧
      (swapBinaries withoutDaemon oldBin).2 "memmuxd" = some ⟨[0x4F], 0o755⟩ :=
    ⟨rfl, rfl, rfl⟩
  refine ⟨hrun, fun h => ?_⟩
  have hsame := (h withoutDaemon oldBin _ hrun.1).1
  rw [hrun.2.1] at hsame
  exact absurd hsame (by decide)

end MemMux.BinarySwap
