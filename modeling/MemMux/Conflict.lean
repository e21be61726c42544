/-
MemMux/Conflict.lean

Overlapping changed files of the active tasks (`memmux-worktree/src/conflict.rs`).

Two nested loops compare each manifest with the later ones, name the smaller id of a pair first, and
sort what they find by the pair.  (Strings are compared by characters, which is the order of their
bytes.)  What a pair yields does not depend on which of the two comes first (`overlap_comm`), so the
report says exactly which tasks overlap (`Exact`) and is the same for every order of the manifests.
-/
import Mathlib.Data.Finset.Sort
import Mathlib.Data.Prod.Lex
import Mathlib.Data.String.Basic
import Mathlib.Data.Sym.Sym2.Order
import MemMux.Pairs
import MemMux.SortBy

namespace MemMux.Conflict

open Pairs SortBy

/-- The set of files a task has changed in its worktree. -/
structure ChangedFiles where
  taskId : String
  files : Finset String
  deriving DecidableEq

/-- A detected overlap between two tasks, the smaller id first. -/
structure Overlap where
  a : String
  b : String
  files : List String
  deriving DecidableEq, Repr

/-- All pairwise overlaps between active tasks. -/
structure ConflictReport where
  overlaps : List Overlap
  deriving DecidableEq, Repr

/-- Whether any two tasks touch a common file. -/
def ConflictReport.hasConflicts (r : ConflictReport) : Bool := !r.overlaps.isEmpty

/-- What overlaps are sorted by. -/
def Overlap.key (o : Overlap) : String ×ₗ String := toLex (o.a, o.b)

/-- The body of the inner loop: the overlap of two manifests, if there is one. -/
def overlap (m n : ChangedFiles) : Option Overlap :=
  let shared := (m.files ∩ n.files).sort
  if shared.isEmpty then none
  else
    let shared := shared.insertionSort (· ≤ ·)
    -- order the pair by id
    let (a, b) := if m.taskId ≤ n.taskId then (m.taskId, n.taskId) else (n.taskId, m.taskId)
    some { a := a, b := b, files := shared }

/-- Detect every pairwise file overlap across the given task manifests. -/
def detectConflicts (manifests : List ChangedFiles) : ConflictReport :=
  { overlaps := sortBy Overlap.key (scan overlap manifests) }

/-! ### One pair -/

/-- **What a pair yields**: its ids in order, and the shared files in order. -/
theorem overlap_eq_some {m n : ChangedFiles} {o : Overlap} :
    overlap m n = some o ↔ ¬Disjoint m.files n.files ∧
      o = { a := min m.taskId n.taskId
            b := max m.taskId n.taskId
            files := (m.files ∩ n.files).sort } := by
  have hsorted : ((m.files ∩ n.files).sort).insertionSort (· ≤ ·) = (m.files ∩ n.files).sort :=
    (Finset.pairwise_sort _ _).insertionSort_eq
  have hempty : ((m.files ∩ n.files).sort).isEmpty = true ↔ Disjoint m.files n.files := by
    rw [List.isEmpty_iff, ← List.length_eq_zero_iff, Finset.length_sort, Finset.card_eq_zero,
      Finset.disjoint_iff_inter_eq_empty]
  have hids : (if m.taskId ≤ n.taskId then (m.taskId, n.taskId) else (n.taskId, m.taskId))
      = (min m.taskId n.taskId, max m.taskId n.taskId) := by
    rw [min_def, max_def]
    split_ifs <;> rfl
  unfold overlap
  dsimp only
  rw [hsorted, hids]
  by_cases hdisj : Disjoint m.files n.files
  · rw [if_pos (hempty.mpr hdisj)]
    constructor
    · intro h
      cases h
    · intro h
      exact absurd hdisj h.1
  · rw [if_neg (mt hempty.mp hdisj)]
    constructor
    · intro h
      exact ⟨hdisj, (Option.some.inj h).symm⟩
    · intro h
      exact congrArg some h.2.symm

/-- **Which of the two comes first does not matter.** -/
theorem overlap_comm (m n : ChangedFiles) : overlap m n = overlap n m := by
  refine Option.ext fun o => ?_
  rw [overlap_eq_some, overlap_eq_some, disjoint_comm, min_comm, max_comm, Finset.inter_comm]

/-- The pair of a report tells the two ids. -/
theorem sym2_eq_of_key_eq {m n m' n' : ChangedFiles} {o o' : Overlap} (h : overlap m n = some o)
    (h' : overlap m' n' = some o') (hkey : o.key = o'.key) :
    s(m.taskId, n.taskId) = s(m'.taskId, n'.taskId) := by
  obtain ⟨-, rfl⟩ := overlap_eq_some.mp h
  obtain ⟨-, rfl⟩ := overlap_eq_some.mp h'
  obtain ⟨hmin, hmax⟩ := Prod.mk.inj (toLex.injective hkey)
  exact Sym2.inf_eq_inf_and_sup_eq_sup.mp ⟨hmin, hmax⟩

/-! ### The report -/

/-- **The report is exact**: it lists the pairs of tasks whose file sets intersect, the smaller id
first and with the shared files in order; each pair once, in the order of the pairs. -/
structure Exact (manifests : List ChangedFiles) (report : ConflictReport) : Prop where
  reported : ∀ o, o ∈ report.overlaps ↔ ∃ m ∈ manifests, ∃ n ∈ manifests,
    m.taskId < n.taskId ∧ ¬Disjoint m.files n.files ∧
      o = { a := m.taskId, b := n.taskId, files := (m.files ∩ n.files).sort }
  once : (report.overlaps.map fun o => (o.a, o.b)).Nodup
  ordered : report.overlaps.Pairwise fun o o' => toLex (o.a, o.b) < toLex (o'.a, o'.b)

section Distinct

variable {manifests : List ChangedFiles}

theorem nodup_manifests (h : (manifests.map (·.taskId)).Nodup) : manifests.Nodup :=
  List.Nodup.of_map _ h

/-- No two overlaps found are of one pair of ids. -/
theorem nodup_map_key_scan (h : (manifests.map (·.taskId)).Nodup) :
    ((scan overlap manifests).map Overlap.key).Nodup := by
  refine nodup_map_scan (nodup_manifests h) ?_
  intro m n m' n' o o' ho ho' hm hn hm' hn' hkey
  have hinj : ∀ {x y}, x ∈ manifests → y ∈ manifests → x.taskId = y.taskId → x = y :=
    fun hx hy heq => List.inj_on_of_nodup_map h hx hy heq
  rcases Sym2.eq_iff.mp (sym2_eq_of_key_eq ho ho' hkey) with ⟨h₁, h₂⟩ | ⟨h₁, h₂⟩
  · rw [hinj hm hm' h₁, hinj hn hn' h₂]
  · rw [hinj hm hn' h₁, hinj hn hm' h₂, Sym2.eq_swap]

theorem mem_overlaps (h : (manifests.map (·.taskId)).Nodup) {o : Overlap} :
    o ∈ (detectConflicts manifests).overlaps ↔ ∃ m ∈ manifests, ∃ n ∈ manifests,
      m.taskId < n.taskId ∧ ¬Disjoint m.files n.files ∧
        o = { a := m.taskId, b := n.taskId, files := (m.files ∩ n.files).sort } := by
  rw [detectConflicts, mem_sortBy, mem_scan (nodup_manifests h) overlap_comm]
  constructor
  · rintro ⟨m, hm, n, hn, hne, ho⟩
    have hids : m.taskId ≠ n.taskId := fun heq => hne (List.inj_on_of_nodup_map h hm hn heq)
    -- either manifest may be the one with the smaller id
    rcases lt_or_gt_of_ne hids with hlt | hlt
    · obtain ⟨hdisj, rfl⟩ := overlap_eq_some.mp ho
      refine ⟨m, hm, n, hn, hlt, hdisj, ?_⟩
      rw [min_eq_left hlt.le, max_eq_right hlt.le]
    · obtain ⟨hdisj, rfl⟩ := overlap_eq_some.mp ((overlap_comm n m).trans ho)
      refine ⟨n, hn, m, hm, hlt, hdisj, ?_⟩
      rw [min_eq_left hlt.le, max_eq_right hlt.le]
  · rintro ⟨m, hm, n, hn, hlt, hdisj, rfl⟩
    refine ⟨m, hm, n, hn, fun heq => hlt.ne (congrArg _ heq), overlap_eq_some.mpr ⟨hdisj, ?_⟩⟩
    rw [min_eq_left hlt.le, max_eq_right hlt.le]

theorem exact_detectConflicts (h : (manifests.map (·.taskId)).Nodup) :
    Exact manifests (detectConflicts manifests) := by
  have hasc : Ascending Overlap.key (detectConflicts manifests).overlaps :=
    pairwise_sortBy (nodup_map_key_scan h)
  refine ⟨fun o => mem_overlaps h, ?_, hasc⟩
  exact List.pairwise_map.mpr (hasc.imp fun hlt heq => hlt.ne (congrArg toLex heq))

/-- The report does not depend on the order of the manifests. -/
theorem detectConflicts_perm (h : (manifests.map (·.taskId)).Nodup)
    {manifests' : List ChangedFiles} (hperm : manifests'.Perm manifests) :
    detectConflicts manifests' = detectConflicts manifests := by
  have h' : (manifests'.map (·.taskId)).Nodup := (hperm.map _).nodup_iff.mpr h
  refine congrArg ConflictReport.mk ?_
  refine sortBy_congr (nodup_map_key_scan h') (nodup_map_key_scan h) fun o => ?_
  rw [mem_scan (nodup_manifests h') overlap_comm, mem_scan (nodup_manifests h) overlap_comm]
  simp only [hperm.mem_iff]

/-- There are conflicts when two tasks touch a common file. -/
theorem hasConflicts_iff (h : (manifests.map (·.taskId)).Nodup) :
    (detectConflicts manifests).hasConflicts = true ↔ ∃ m ∈ manifests, ∃ n ∈ manifests,
      m.taskId < n.taskId ∧ ¬Disjoint m.files n.files := by
  rw [ConflictReport.hasConflicts, Bool.not_eq_true', List.isEmpty_eq_false_iff_exists_mem]
  constructor
  · rintro ⟨o, ho⟩
    obtain ⟨m, hm, n, hn, hlt, hdisj, -⟩ := (mem_overlaps h).mp ho
    exact ⟨m, hm, n, hn, hlt, hdisj⟩
  · rintro ⟨m, hm, n, hn, hlt, hdisj⟩
    exact ⟨_, (mem_overlaps h).mpr ⟨m, hm, n, hn, hlt, hdisj, rfl⟩⟩

end Distinct

/-- **Conflict detection is sound, complete and independent of the order of the manifests.** -/
theorem detects_exactly (manifests : List ChangedFiles)
    (h : (manifests.map (·.taskId)).Nodup) :
    Exact manifests (detectConflicts manifests) ∧
      ∀ manifests' : List ChangedFiles, manifests'.Perm manifests →
        detectConflicts manifests' = detectConflicts manifests :=
  ⟨exact_detectConflicts h, fun _ hperm => detectConflicts_perm h hperm⟩

/-- Three tasks, two of which touch the library's root. -/
def auth : ChangedFiles := { taskId := "task_a", files := {"src/auth.rs", "src/lib.rs"} }

def ui : ChangedFiles := { taskId := "task_b", files := {"src/lib.rs", "src/ui.rs"} }

def docs : ChangedFiles := { taskId := "task_c", files := {"docs/readme.md"} }

theorem detects_exactly_three :
    { a := "task_a", b := "task_b", files := ["src/lib.rs"] } ∈
        (detectConflicts [ui, docs, auth]).overlaps ∧
      detectConflicts [docs, ui, auth] = detectConflicts [ui, docs, auth] := by
  obtain ⟨hexact, hperm⟩ := detects_exactly [ui, docs, auth] (by decide)
  refine ⟨(hexact.reported _).mpr ⟨auth, by decide, ui, by decide, by decide, by decide, ?_⟩,
    hperm _ (.swap ui docs [auth])⟩
  have hshared : auth.files ∩ ui.files = {"src/lib.rs"} := by decide
  rw [hshared, Finset.sort_singleton]
  rfl

end MemMux.Conflict
