/-
MemMux/Porcelain.lean

What `dirty_manifest` makes of the status of a worktree (`memmux-worktree/src/worktree.rs`,
`gitcmd.rs`).

`git status --porcelain` prints a line for every entry: two status letters, a blank, and
the path, after `orig -> ` if it was renamed or copied.  A path with a blank or with characters that
a C string literal cannot hold is printed as such a literal.  The lines come back
as they were printed (`linesOf_stdoutOf`), and `dirty_manifest` takes what follows the first three
bytes of each for the path.  It lists one path for each entry, in order
(`changedPaths_porcelain`), which is the path of the entry unless that was renamed, copied or quoted
(`changedPaths_iff`).

The checkpoint of a task has its own notion of a dirty tree, the digest of `git diff HEAD`.
It says nothing of untracked files (`gitDirty_iff`).
-/
import MemMux.Daemon
import Mathlib.Data.List.DropRight

namespace MemMux

variable {h : Host}

/-! ### Lines -/

/-- `git`: what was printed on standard output, without the line feeds at its end. -/
def stdoutOf (printed : List Char) : String := String.ofList (printed.rdropWhile (· = '\n'))

/-- A character that does not end a line. -/
def InLine (c : Char) : Prop := c ≠ '\n' ∧ c ≠ '\r'

theorem go_line (strip : List Char → List Char) {l : List Char} (hl : ∀ c ∈ l, InLine c)
    (acc rest : List Char) :
    linesOf.go strip (l ++ rest) acc = linesOf.go strip rest (l.reverse ++ acc) := by
  induction l generalizing acc with
  | nil => rfl
  | cons c l ih =>
      obtain ⟨hc, hl⟩ := List.forall_mem_cons.mp hl
      show (if c = '\n' then _ else linesOf.go strip (l ++ rest) (c :: acc)) = _
      rw [if_neg hc.1, ih hl, List.reverse_cons, List.append_assoc]
      rfl

theorem go_lines (strip : List Char → List Char) {ls : List (List Char)}
    (hls : ∀ l ∈ ls, ∀ c ∈ l, InLine c) (hstrip : ∀ l ∈ ls, strip l = l) (rest : List Char) :
    linesOf.go strip (ls.flatMap (· ++ ['\n']) ++ rest) [] = ls ++ linesOf.go strip rest [] := by
  induction ls with
  | nil => rfl
  | cons l ls ih =>
      obtain ⟨hl, hls⟩ := List.forall_mem_cons.mp hls
      obtain ⟨hs, hstrip⟩ := List.forall_mem_cons.mp hstrip
      rw [List.flatMap_cons, List.append_assoc, List.append_assoc, go_line strip hl]
      show strip ((l.reverse ++ []).reverse) :: linesOf.go strip (_ ++ rest) [] = _
      rw [List.append_nil, List.reverse_reverse, hs, ih hls hstrip]
      rfl

/-- **Lines come back as they were printed.** -/
theorem linesOf_stdoutOf {ls : List (List Char)} (hls : ∀ l ∈ ls, ∀ c ∈ l, InLine c)
    (hne : ∀ l ∈ ls, l ≠ []) : linesOf (stdoutOf (ls.flatMap (· ++ ['\n']))) = ls := by
  have hstrip : ∀ l ∈ ls, (if l.getLast? = some '\r' then l.dropLast else l) = l := fun l hl =>
    if_neg fun hlast => (hls l hl '\r' (List.mem_of_getLast? hlast)).2 rfl
  rcases List.eq_nil_or_concat' ls with rfl | ⟨init, last, rfl⟩
  · rfl
  · obtain ⟨hinit, hlast⟩ := List.forall_mem_append.mp hls
    have hlast := hlast last (List.mem_singleton_self _)
    have hne := hne last (List.mem_append_right _ (List.mem_singleton_self _))
    obtain ⟨pre, c, rfl⟩ := (List.eq_nil_or_concat' last).resolve_left hne
    have hc : c ≠ '\n' := (hlast c (List.mem_append_right _ (List.mem_singleton_self _))).1
    -- only the line feed after the last line goes
    have hcut : ((init ++ [pre ++ [c]]).flatMap (· ++ ['\n'])).rdropWhile (· = '\n')
        = init.flatMap (· ++ ['\n']) ++ (pre ++ [c]) := by
      rw [List.flatMap_append, List.flatMap_singleton, ← List.append_assoc,
        List.rdropWhile_concat_pos _ _ _ rfl, ← List.append_assoc,
        List.rdropWhile_concat_neg _ _ _ (by simpa using hc)]
    unfold linesOf stdoutOf
    rw [String.toList_ofList, hcut]
    dsimp only
    rw [go_lines _ hinit fun l hl => hstrip l (List.mem_append_left _ hl)]
    refine congrArg (init ++ ·) ?_
    have hrev : (pre ++ [c]).reverse ++ [] = c :: pre.reverse := by simp
    rw [← List.append_nil (pre ++ [c]), go_line _ hlast, hrev]
    show [(c :: pre.reverse).reverse] = _
    rw [List.reverse_cons, List.reverse_reverse, List.append_nil]

/-! ### The printed status -/

/-- The letters of porcelain v1. -/
inductive StatusLetter
  | unmodified
  | modified
  | typeChanged
  | added
  | deleted
  | renamed
  | copied
  | unmerged
  | untracked
  | ignored
  deriving DecidableEq, Repr

namespace StatusLetter

def char : StatusLetter → Char
  | unmodified => ' '
  | modified => 'M'
  | typeChanged => 'T'
  | added => 'A'
  | deleted => 'D'
  | renamed => 'R'
  | copied => 'C'
  | unmerged => 'U'
  | untracked => '?'
  | ignored => '!'

/-- Whether the path came from another one. -/
def moves (x : StatusLetter) : Bool := x = renamed || x = copied

theorem char_width (x : StatusLetter) : x.char.utf8Size = 1 := by cases x <;> rfl

theorem inLine_char (x : StatusLetter) : InLine x.char := by
  cases x <;> exact ⟨by decide, by decide⟩

end StatusLetter

/-- An entry of a status: renames and copies have an original path, and nothing else has. -/
structure StatusEntry where
  x : StatusLetter
  y : StatusLetter
  path : String
  original : Option String
  original_isSome : original.isSome = (x.moves || y.moves)

/-- The letter after the backslash for a character that has one. -/
def escapeLetter (c : Char) : Option Char :=
  match c.toNat with
  | 7 => some 'a'
  | 8 => some 'b'
  | 9 => some 't'
  | 10 => some 'n'
  | 11 => some 'v'
  | 12 => some 'f'
  | 13 => some 'r'
  | 34 => some '"'
  | 92 => some '\\'
  | _ => none

/-- A byte as a backslash and three octal digits. -/
def octal (b : UInt8) : List Char :=
  ['\\', Nat.digitChar (b.toNat / 64), Nat.digitChar (b.toNat / 8 % 8), Nat.digitChar (b.toNat % 8)]

/-- What git writes for a character that does not stand for itself.  With `core.quotePath`,
which is the default, `quotePath` holds and the bytes of non-ASCII characters are escaped. -/
def escapeOf (quotePath : Bool) (c : Char) : Option (List Char) :=
  match escapeLetter c with
  | some e => some ['\\', e]
  | none =>
      if c.toNat < 0x20 ∨ c.toNat = 0x7f ∨ (quotePath ∧ 0x80 ≤ c.toNat) then
        some ((String.utf8EncodeChar c).flatMap octal)
      else none

/-- Whether a path is quoted: it has a blank, or a character that does not stand for itself. -/
def isSpecial (quotePath : Bool) (path : String) : Bool :=
  path.toList.any fun c => c = ' ' || (escapeOf quotePath c).isSome

/-- A path as git prints it. -/
def quoted (quotePath : Bool) (path : String) : List Char :=
  if isSpecial quotePath path then
    '"' :: path.toList.flatMap (fun c => (escapeOf quotePath c).getD [c]) ++ ['"']
  else path.toList

namespace StatusEntry

/-- What is printed after the letters: the path, and where it came from. -/
def shown (quotePath : Bool) (e : StatusEntry) : List Char :=
  match e.original with
  | some orig => quoted quotePath orig ++ " -> ".toList ++ quoted quotePath e.path
  | none => quoted quotePath e.path

/-- A line of `git status --porcelain`. -/
def line (quotePath : Bool) (e : StatusEntry) : List Char :=
  e.x.char :: e.y.char :: ' ' :: e.shown quotePath

end StatusEntry

/-- `git status --porcelain`. -/
def porcelain (quotePath : Bool) (es : List StatusEntry) : List Char :=
  (es.map (StatusEntry.line quotePath)).flatMap (· ++ ['\n'])

/-! ### Quoting -/

theorem inLine_digitChar : ∀ d < 8, InLine (Nat.digitChar d) := by
  unfold InLine
  decide

theorem inLine_octal (b : UInt8) : ∀ c ∈ octal b, InLine c := by
  have hlt : b.toNat < 256 := b.toNat_lt
  have hback : InLine '\\' := ⟨by decide, by decide⟩
  simp only [octal, List.forall_mem_cons]
  exact ⟨hback, inLine_digitChar _ (by omega), inLine_digitChar _ (by omega),
    inLine_digitChar _ (by omega), nofun⟩

theorem inLine_escapeLetter {c e : Char} (he : escapeLetter c = some e) : InLine e := by
  unfold escapeLetter at he
  split at he <;> first | (cases he; exact ⟨by decide, by decide⟩) | cases he

/-- An escape is not empty, and ends no line. -/
theorem escapeOf_spec {quotePath : Bool} {c : Char} {e : List Char}
    (he : escapeOf quotePath c = some e) : 1 ≤ e.length ∧ ∀ d ∈ e, InLine d := by
  unfold escapeOf at he
  split at he
  · next l hl =>
    cases he
    have hback : InLine '\\' := ⟨by decide, by decide⟩
    exact ⟨by simp, by simpa using ⟨hback, inLine_escapeLetter hl⟩⟩
  · split_ifs at he
    cases he
    refine ⟨?_, fun d hd => ?_⟩
    · obtain ⟨b, bs, hbytes⟩ := List.exists_cons_of_ne_nil (@String.utf8EncodeChar_ne_nil c)
      rw [hbytes, List.flatMap_cons]
      exact Nat.succ_le_succ (Nat.zero_le _)
    · obtain ⟨b, -, hd⟩ := List.mem_flatMap.mp hd
      exact inLine_octal b d hd

/-- A character that stands for itself ends no line. -/
theorem inLine_of_escapeOf {quotePath : Bool} {c : Char} (he : escapeOf quotePath c = none) :
    InLine c := by
  constructor
  · rintro rfl
    cases he
  · rintro rfl
    cases he

theorem inLine_quoted {quotePath : Bool} {path : String} :
    ∀ d ∈ quoted quotePath path, InLine d := by
  unfold quoted
  split
  · refine List.forall_mem_append.mpr
      ⟨List.forall_mem_cons.mpr ⟨⟨by decide, by decide⟩, fun d hd => ?_⟩,
        List.forall_mem_singleton.mpr ⟨by decide, by decide⟩⟩
    obtain ⟨c, -, hd⟩ := List.mem_flatMap.mp hd
    cases he : escapeOf quotePath c with
    | some e =>
        rw [he, Option.getD_some] at hd
        exact (escapeOf_spec he).2 d hd
    | none =>
        rw [he, Option.getD_none, List.mem_singleton] at hd
        exact hd ▸ inLine_of_escapeOf he
  · next hplain =>
    intro d hd
    have hnot := List.any_eq_false.mp (Bool.eq_false_iff.mpr hplain) d hd
    rw [Bool.or_eq_true, not_or, Option.isSome_iff_ne_none, not_not] at hnot
    exact inLine_of_escapeOf hnot.2

/-- A quoted path is longer than the path. -/
theorem length_quoted {quotePath : Bool} {path : String} (hs : isSpecial quotePath path = true) :
    path.toList.length < (quoted quotePath path).length := by
  have hescape : ∀ cs : List Char,
      cs.length ≤ (cs.flatMap fun c => (escapeOf quotePath c).getD [c]).length := by
    intro cs
    induction cs with
    | nil => exact Nat.le_refl 0
    | cons c cs ih =>
        have hone : 1 ≤ ((escapeOf quotePath c).getD [c]).length := by
          cases he : escapeOf quotePath c with
          | some e => exact (escapeOf_spec he).1
          | none => exact Nat.le_refl 1
        rw [List.flatMap_cons, List.length_append, List.length_cons]
        omega
  have := hescape path.toList
  unfold quoted
  rw [if_pos hs, List.length_append, List.length_cons]
  omega

theorem quoted_of_plain {quotePath : Bool} {path : String}
    (hs : isSpecial quotePath path = false) : quoted quotePath path = path.toList :=
  if_neg (Bool.eq_false_iff.mp hs)

theorem le_length_quoted {quotePath : Bool} {path : String} :
    path.toList.length ≤ (quoted quotePath path).length := by
  cases hs : isSpecial quotePath path with
  | true => exact (length_quoted hs).le
  | false => rw [quoted_of_plain hs]

/-! ### Reading the status back -/

namespace StatusEntry

variable {quotePath : Bool} {e : StatusEntry}

theorem inLine_line : ∀ d ∈ e.line quotePath, InLine d := by
  have hshown : ∀ d ∈ e.shown quotePath, InLine d := by
    unfold shown
    cases e.original with
    | none => exact inLine_quoted
    | some orig =>
        have harrow : ∀ d ∈ " -> ".toList, InLine d := by simp [InLine]
        exact List.forall_mem_append.mpr
          ⟨List.forall_mem_append.mpr ⟨inLine_quoted, harrow⟩, inLine_quoted⟩
  exact List.forall_mem_cons.mpr ⟨e.x.inLine_char, List.forall_mem_cons.mpr
    ⟨e.y.inLine_char, List.forall_mem_cons.mpr ⟨⟨by decide, by decide⟩, hshown⟩⟩⟩

/-- The first three bytes of a line are the letters and the blank. -/
theorem dropBytes_line : dropBytes 3 (e.line quotePath) = some (e.shown quotePath) := by
  have hblank : ' '.utf8Size = 1 := rfl
  simp [line, dropBytes, StatusLetter.char_width, hblank]

/-- **What is printed for an entry is its path**, unless it was renamed, copied or quoted. -/
theorem shown_eq_path_iff : String.ofList (e.shown quotePath) = e.path ↔
    (e.x.moves || e.y.moves) = false ∧ isSpecial quotePath e.path = false := by
  have hlist : String.ofList (e.shown quotePath) = e.path ↔ e.shown quotePath = e.path.toList := by
    rw [← String.toList_inj, String.toList_ofList]
  rw [hlist, ← e.original_isSome]
  unfold shown
  cases e.original with
  | some orig =>
      refine iff_of_false (fun heq => ?_) nofun
      -- the arrow alone makes it longer than the path
      have hlen := congrArg List.length heq
      rw [List.length_append, List.length_append] at hlen
      have := @le_length_quoted quotePath e.path
      have harrow : " -> ".toList.length = 4 := rfl
      omega
  | none =>
      cases hs : isSpecial quotePath e.path with
      | true =>
          exact iff_of_false (fun heq => (length_quoted hs).ne (congrArg List.length heq).symm)
            nofun
      | false => exact iff_of_true (quoted_of_plain hs) ⟨rfl, rfl⟩

end StatusEntry

/-- **The manifest lists what is printed for each entry, in order.** -/
theorem changedPaths_porcelain (quotePath : Bool) (es : List StatusEntry) (patch : String) :
    (DirtyManifest.of (stdoutOf (porcelain quotePath es)) patch).changedPaths
      = es.map fun e => String.ofList (e.shown quotePath) := by
  have hlines : linesOf (stdoutOf (porcelain quotePath es))
      = es.map (StatusEntry.line quotePath) := by
    refine linesOf_stdoutOf ?_ ?_
    · intro l hl
      obtain ⟨e, -, rfl⟩ := List.mem_map.mp hl
      exact e.inLine_line
    · intro l hl
      obtain ⟨e, -, rfl⟩ := List.mem_map.mp hl
      exact List.cons_ne_nil _ _
  unfold DirtyManifest.of
  dsimp only
  have hpath : ((fun l => (dropBytes 3 l).map String.ofList) ∘ StatusEntry.line quotePath)
      = fun e => some (String.ofList (e.shown quotePath)) :=
    funext fun _ => congrArg (Option.map String.ofList) StatusEntry.dropBytes_line
  rw [hlines, List.filterMap_map, hpath, List.filterMap_eq_map']

/-- A manifest is made of the status and of the patch. -/
theorem dirtyManifest_eq {handle : WorktreeHandle} {w : World} {m : DirtyManifest} {status : String}
    (hs : statusOf h w handle.path = some status) (hm : (dirtyManifest h handle w).2 = some m) :
    ∃ patch, m = .of status patch := by
  unfold dirtyManifest at hm
  rw [hs] at hm
  obtain ⟨patch, -, hm⟩ := Option.map_eq_some_iff.mp hm
  exact ⟨patch, hm.symm⟩

/-- **The manifest lists the changed paths exactly when no entry was renamed or copied, and no path
needs quoting.** -/
theorem changedPaths_iff {handle : WorktreeHandle} {w : World} {m : DirtyManifest}
    {quotePath : Bool} {es : List StatusEntry}
    (hs : statusOf h w handle.path = some (stdoutOf (porcelain quotePath es)))
    (hm : (dirtyManifest h handle w).2 = some m) :
    m.changedPaths = es.map (·.path) ↔
      ∀ e ∈ es, (e.x.moves || e.y.moves) = false ∧ isSpecial quotePath e.path = false := by
  obtain ⟨patch, rfl⟩ := dirtyManifest_eq hs hm
  rw [changedPaths_porcelain, List.map_inj_left]
  exact forall₂_congr fun e _ => e.shown_eq_path_iff

/-- A steady host whose worktrees have this status. -/
def statusHost (es : List StatusEntry) : Host :=
  { steadyHost with
      git := fun _ _ args =>
        if args = ["status", "--porcelain"] then some (stdoutOf (porcelain true es)) else some "" }

/-- A changed file. -/
def changedFile : StatusEntry := ⟨.unmodified, .modified, "src/login.rs", none, rfl⟩

/-- A renamed file. -/
def renamedFile : StatusEntry := ⟨.renamed, .unmodified, "auth.rs", some "login.rs", rfl⟩

/-- A new file with a blank in its name. -/
def spacedFile : StatusEntry := ⟨.untracked, .untracked, "my notes.txt", none, rfl⟩

/-- The manifest of a running task whose worktree has one changed file. -/
theorem changedPaths_changedFile :
    ∃ handle m, runningWorld.mem.worktrees.lookup fixLogin = some handle ∧
      (dirtyManifest (statusHost [changedFile]) handle runningWorld).2 = some m ∧
      m.changedPaths = ["src/login.rs"] := by
  obtain ⟨handle, hw⟩ : ∃ handle, runningWorld.mem.worktrees.lookup fixLogin = some handle :=
    ⟨_, rfl⟩
  obtain ⟨m, hm⟩ : ∃ m, (dirtyManifest (statusHost [changedFile]) handle runningWorld).2 = some m :=
    ⟨_, rfl⟩
  have hplain : ∀ e ∈ [changedFile],
      (e.x.moves || e.y.moves) = false ∧ isSpecial true e.path = false := by decide
  exact ⟨handle, m, hw, hm, (@changedPaths_iff _ _ _ _ true [changedFile] rfl hm).mpr hplain⟩

/-- **A renamed file is listed with its old name, and a blank puts a name in quotes.** -/
theorem rename_and_blank_not_paths :
    ∃ handle m, runningWorld.mem.worktrees.lookup fixLogin = some handle ∧
      statusOf (statusHost [renamedFile, spacedFile]) runningWorld handle.path
        = some (stdoutOf (porcelain true [renamedFile, spacedFile])) ∧
      (dirtyManifest (statusHost [renamedFile, spacedFile]) handle runningWorld).2 = some m ∧
      m.changedPaths = ["login.rs -> auth.rs", "\"my notes.txt\""] ∧
      m.changedPaths ≠ [renamedFile, spacedFile].map (·.path) :=
  ⟨_, _, rfl, rfl, rfl, by decide, by decide⟩

/-! ### Two notions of dirty -/

/-- The uncommitted state of a worktree: changes of tracked files, and untracked files. -/
structure WorktreeChanges where
  tracked : List StatusEntry
  untracked : List String
  tracked_x : ∀ e ∈ tracked, e.x ≠ .untracked ∧ e.x ≠ .ignored

namespace WorktreeChanges

/-- The entry of an untracked file. -/
def untrackedEntry (path : String) : StatusEntry := ⟨.untracked, .untracked, path, none, rfl⟩

/-- What the status lists. -/
def entries (s : WorktreeChanges) : List StatusEntry := s.tracked ++ s.untracked.map untrackedEntry

/-- git shows these changes of the worktree at `dir`: the status lists all of them, and the patch is
that of the tracked ones. -/
structure ShownBy (s : WorktreeChanges) (quotePath : Bool) (patch : String) (h : Host)
    (dir : Path) : Prop where
  status : ∀ n, h.git n dir ["status", "--porcelain"]
    = some (stdoutOf (porcelain quotePath s.entries))
  diff : ∀ n, h.git n dir ["diff", "HEAD"] = some patch
  patch_eq_empty : patch = "" ↔ s.tracked = []

end WorktreeChanges

section Dirty

variable {codec : CheckpointCodec} {s : WorktreeChanges} {quotePath : Bool} {patch : String}
  {id : String} {task : Task} {handle : WorktreeHandle} {now : UInt64} {w w' : World}

/-- The digest tells the patch from the empty one. -/
def DigestSeparates (patch : String) : Prop :=
  contentHash (utf8 patch) = contentHash [] → patch = ""

/-- The evidence of a checkpoint is about the tracked changes. -/
theorem gitDirty_iff (hg : s.ShownBy quotePath patch h (captureDir id task w.mem))
    (hsep : DigestSeparates patch) :
    isDirtyPatch (captureCheckpoint codec h id task now w).2.gitPatchHash = true
      ↔ s.tracked ≠ [] := by
  have hpatch : (captureCheckpoint codec h id task now w).2.gitPatchHash
      = contentHash (utf8 patch) := by
    show gitPatchHash h _ _ = _
    unfold gitPatchHash
    rw [hg.diff]
    rfl
  rw [hpatch, isDirtyPatch, bne_iff_ne, Ne, Ne, ← hg.patch_eq_empty, not_iff_not]
  exact ⟨hsep, fun heq => heq ▸ rfl⟩

theorem DirtyManifest.dirty_of (status patch : String) :
    (DirtyManifest.of status patch).dirty
      = !(DirtyManifest.of status patch).changedPaths.isEmpty := rfl

/-- The manifest reports all changes. -/
theorem dirtyManifest_shown (hg : s.ShownBy quotePath patch h handle.path) :
    ∃ m, (dirtyManifest h handle w).2 = some m ∧
      (m.dirty = true ↔ s.tracked ≠ [] ∨ s.untracked ≠ []) := by
  have hm : (dirtyManifest h handle w).2
      = some (.of (stdoutOf (porcelain quotePath s.entries)) patch) := by
    unfold dirtyManifest statusOf
    rw [hg.status]
    exact congrArg (Option.map _) (hg.diff _)
  refine ⟨_, hm, ?_⟩
  rw [DirtyManifest.dirty_of, changedPaths_porcelain, Bool.not_eq_true', List.isEmpty_eq_false_iff,
    Ne, List.map_eq_nil_iff, WorktreeChanges.entries, List.append_eq_nil_iff, List.map_eq_nil_iff,
    not_and_or]

/-- **The evidence of a checkpoint and the manifest of its worktree agree exactly when a tracked
file changed or no file is untracked**: the evidence is about tracked files only. -/
theorem gitDirty_eq_dirty_iff (hw : w.mem.worktrees.lookup id = some handle)
    (hg : s.ShownBy quotePath patch h handle.path) (hsep : DigestSeparates patch) :
    ∃ m, (dirtyManifest h handle w').2 = some m ∧
      (m.dirty = true ↔ s.tracked ≠ [] ∨ s.untracked ≠ []) ∧
      (isDirtyPatch (captureCheckpoint codec h id task now w).2.gitPatchHash = true
        ↔ s.tracked ≠ []) ∧
      (isDirtyPatch (captureCheckpoint codec h id task now w).2.gitPatchHash = m.dirty
        ↔ s.tracked ≠ [] ∨ s.untracked = []) := by
  have hdir : captureDir id task w.mem = handle.path := by rw [captureDir, hw]
  obtain ⟨m, hm, hdirty⟩ := dirtyManifest_shown hg
  rw [← hdir] at hg
  have hev := @gitDirty_iff h codec s quotePath patch id task now w hg hsep
  refine ⟨m, hm, hdirty, hev, ?_⟩
  rw [Bool.eq_iff_iff, hev, hdirty]
  by_cases ht : s.tracked = []
  · -- nothing is tracked: the evidence says clean, the manifest looks at the untracked files
    rw [ht, ne_self_iff_false, false_or, false_or, false_iff, not_not]
  · exact iff_of_true (iff_of_true ht (.inl ht)) (.inl ht)

end Dirty

/-! ### A worktree with new files only -/

/-- A steady host whose worktrees have these changes. -/
def changedHost (s : WorktreeChanges) : Host :=
  { steadyHost with
      git := fun _ _ args =>
        if args = ["status", "--porcelain"] then some (stdoutOf (porcelain true s.entries))
        else if s.tracked = [] then some "" else some "diff --git a/login.rs b/login.rs" }

theorem changedHost_shows (s : WorktreeChanges) (dir : Path) :
    s.ShownBy true (if s.tracked = [] then "" else "diff --git a/login.rs b/login.rs")
      (changedHost s) dir where
  status _ := rfl
  diff _ := by
    show (if s.tracked = [] then _ else _) = _
    split <;> rfl
  patch_eq_empty := by
    split
    · next ht => exact iff_of_true rfl ht
    · next ht => exact iff_of_false (by decide) ht

/-- A new file, and nothing else. -/
def onlyUntracked : WorktreeChanges := ⟨[], ["notes.txt"], List.forall_mem_nil _⟩

/-- A change of a tracked file. -/
def onlyTracked : WorktreeChanges := ⟨[changedFile], [], by decide⟩

/-- On a running task whose worktree has a changed file, both say dirty. -/
theorem gitDirty_eq_dirty_tracked :
    ∃ task handle m, runningWorld.mem.tasks.lookup fixLogin = some task ∧
      runningWorld.mem.worktrees.lookup fixLogin = some handle ∧
      (dirtyManifest (changedHost onlyTracked) handle runningWorld).2 = some m ∧
      isDirtyPatch (captureCheckpoint serdeJson (changedHost onlyTracked) fixLogin task 0
        runningWorld).2.gitPatchHash = m.dirty := by
  obtain ⟨task, htask⟩ : ∃ task, runningWorld.mem.tasks.lookup fixLogin = some task := ⟨_, rfl⟩
  obtain ⟨handle, hw⟩ : ∃ handle, runningWorld.mem.worktrees.lookup fixLogin = some handle :=
    ⟨_, rfl⟩
  have hsep : DigestSeparates "diff --git a/login.rs b/login.rs" := by
    unfold DigestSeparates
    decide
  obtain ⟨m, hm, -, -, hagree⟩ := @gitDirty_eq_dirty_iff (changedHost onlyTracked) serdeJson
    onlyTracked true _ fixLogin task handle 0 runningWorld runningWorld hw
    (changedHost_shows onlyTracked handle.path) hsep
  exact ⟨task, handle, m, htask, hw, hm, hagree.mpr (.inl (by decide))⟩

/-- **A new file is a change to the manifest and not to the checkpoint.** -/
theorem untracked_only_disagrees :
    ∃ task handle m, runningWorld.mem.tasks.lookup fixLogin = some task ∧
      runningWorld.mem.worktrees.lookup fixLogin = some handle ∧
      onlyUntracked.ShownBy true "" (changedHost onlyUntracked) handle.path ∧
      DigestSeparates "" ∧
      (dirtyManifest (changedHost onlyUntracked) handle runningWorld).2 = some m ∧
      m.dirty = true ∧
      isDirtyPatch (captureCheckpoint serdeJson (changedHost onlyUntracked) fixLogin task 0
        runningWorld).2.gitPatchHash = false :=
  ⟨_, _, _, rfl, rfl, changedHost_shows onlyUntracked _, fun _ => rfl, rfl, by decide, by decide⟩

end MemMux
