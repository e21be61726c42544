/-
MemMux/Search.lean

Breadth-first search over a successor function, with a list of seen nodes.

The search pops a node from its queue, skips it when it has been seen, and otherwise reports it
and appends its successors.  It is written with fuel, so that it computes; every step
pops one queue entry and every entry is a successor of the start or of a reported node, so the
number of edges is always enough fuel (`mem_reach`).  With that much fuel the reported nodes are
exactly the nodes other than the start that are reachable from it, each once, cycles or
not.
-/
import Mathlib.Algebra.BigOperators.Group.Finset.Basic
import Mathlib.Algebra.BigOperators.Group.Finset.Piecewise
import Mathlib.Logic.Relation
import Mathlib.Tactic.Common

namespace Search

open Relation

variable {α : Type} [DecidableEq α] (succ : α → List α)

/-- The nodes reported by a search with the given seen nodes and queue. -/
def bfs : Nat → List α → List α → List α
  | 0, _, _ => []
  | _ + 1, _, [] => []
  | fuel + 1, seen, next :: queue =>
      if next ∈ seen then bfs fuel seen queue
      else next :: bfs fuel (next :: seen) (queue ++ succ next)

/-- Breadth-first search from the successors of `root`; `root` itself counts as seen. -/
def reach (fuel : Nat) (root : α) : List α := bfs succ fuel [root] (succ root)

/-- `y` is a successor of `x`. -/
def Edge (x y : α) : Prop := y ∈ succ x

/-! ### Soundness -/

variable {succ}

/-- A reported node had not been seen. -/
theorem not_mem_seen_of_mem_bfs {fuel : Nat} {seen queue : List α} {x : α}
    (h : x ∈ bfs succ fuel seen queue) : x ∉ seen := by
  induction fuel generalizing seen queue with
  | zero => cases h
  | succ fuel ih =>
      cases queue with
      | nil => cases h
      | cons next queue =>
          rw [bfs] at h
          split at h
          · exact ih h
          · next hnext =>
            rcases List.mem_cons.mp h with rfl | h
            · exact hnext
            · exact fun hx => ih h (List.mem_cons_of_mem _ hx)

/-- A reported node is reachable from the queue. -/
theorem reachable_of_mem_bfs {fuel : Nat} {seen queue : List α} {x : α}
    (h : x ∈ bfs succ fuel seen queue) : ∃ q ∈ queue, ReflTransGen (Edge succ) q x := by
  induction fuel generalizing seen queue with
  | zero => cases h
  | succ fuel ih =>
      cases queue with
      | nil => cases h
      | cons next queue =>
          rw [bfs] at h
          split at h
          · obtain ⟨q, hq, hx⟩ := ih h
            exact ⟨q, List.mem_cons_of_mem _ hq, hx⟩
          · rcases List.mem_cons.mp h with rfl | h
            · exact ⟨x, List.mem_cons_self, .refl⟩
            · obtain ⟨q, hq, hx⟩ := ih h
              rcases List.mem_append.mp hq with hq | hq
              · exact ⟨q, List.mem_cons_of_mem _ hq, hx⟩
              · exact ⟨next, List.mem_cons_self, ReflTransGen.head hq hx⟩

/-! ### Enough fuel -/

/-- The pops a search may still need: what is queued now, and the successors of the nodes of
`univ` that have not been seen. -/
def work (succ : α → List α) (univ : Finset α) (seen queue : List α) : Nat :=
  queue.length + ∑ x ∈ univ \ seen.toFinset, (succ x).length

/-- Visiting a new node turns its successors from future work into queued work. -/
theorem work_visit {univ : Finset α} (huniv : ∀ x, x ∉ univ → succ x = []) {seen queue : List α}
    {next : α} (hnext : next ∉ seen) :
    work succ univ (next :: seen) (queue ++ succ next) + 1
      = work succ univ seen (next :: queue) := by
  have hsum : (succ next).length + ∑ x ∈ univ \ (next :: seen).toFinset, (succ x).length
      = ∑ x ∈ univ \ seen.toFinset, (succ x).length := by
    rw [List.toFinset_cons, Finset.sdiff_insert]
    by_cases hmem : next ∈ univ
    · exact Finset.add_sum_erase _ (fun x => (succ x).length) (by simp [hmem, hnext])
    · have hnil : next ∉ univ \ seen.toFinset := by simp [hmem]
      rw [Finset.erase_eq_of_notMem hnil, huniv next hmem]
      simp
  simp only [work, List.length_append, List.length_cons]
  omega

/-- With enough fuel nothing queued is missed, and the successors of a reported node are seen
or reported. -/
theorem bfs_closed {univ : Finset α} (huniv : ∀ x, x ∉ univ → succ x = []) {fuel : Nat}
    {seen queue : List α} (hfuel : work succ univ seen queue ≤ fuel) :
    (∀ x ∈ queue, x ∈ seen ∨ x ∈ bfs succ fuel seen queue) ∧
      ∀ x ∈ bfs succ fuel seen queue, ∀ y ∈ succ x,
        y ∈ seen ∨ y ∈ bfs succ fuel seen queue := by
  induction fuel generalizing seen queue with
  | zero =>
      have hnil : queue = [] := List.length_eq_zero_iff.mp (by unfold work at hfuel; omega)
      subst hnil
      exact ⟨by simp, by simp [bfs]⟩
  | succ fuel ih =>
      cases queue with
      | nil => exact ⟨by simp, by simp [bfs]⟩
      | cons next queue =>
          rw [bfs]
          split
          · next hseen =>
            have hle : work succ univ seen queue ≤ fuel := by
              simp only [work, List.length_cons] at hfuel ⊢
              omega
            obtain ⟨hqueue, hclosed⟩ := ih hle
            refine ⟨fun x hx => ?_, hclosed⟩
            rcases List.mem_cons.mp hx with rfl | hx
            · exact Or.inl hseen
            · exact hqueue x hx
          · next hseen =>
            have hvisit : work succ univ (next :: seen) (queue ++ succ next) + 1
                = work succ univ seen (next :: queue) := work_visit huniv hseen
            have hle : work succ univ (next :: seen) (queue ++ succ next) ≤ fuel := by omega
            obtain ⟨hqueue, hclosed⟩ := ih hle
            -- seen-or-reported after the visit is the same as before it
            have hiff : ∀ y, (y ∈ next :: seen ∨
                y ∈ bfs succ fuel (next :: seen) (queue ++ succ next)) →
                y ∈ seen ∨ y ∈ next :: bfs succ fuel (next :: seen) (queue ++ succ next) := by
              intro y hy
              simp only [List.mem_cons] at hy ⊢
              tauto
            refine ⟨fun x hx => ?_, fun x hx y hy => ?_⟩
            · rcases List.mem_cons.mp hx with rfl | hx
              · exact Or.inr List.mem_cons_self
              · exact hiff x (hqueue x (List.mem_append_left _ hx))
            · rcases List.mem_cons.mp hx with rfl | hx
              · exact hiff y (hqueue y (List.mem_append_right _ hy))
              · exact hiff y (hclosed x hx y hy)

/-! ### The reported nodes -/

/-- The work of a whole search is at most the number of edges. -/
theorem work_start_le {univ : Finset α} (huniv : ∀ x, x ∉ univ → succ x = []) (root : α) :
    work succ univ [root] (succ root) ≤ ∑ x ∈ univ, (succ x).length := by
  have hroot : [root].toFinset = {root} := by simp
  unfold work
  rw [hroot, Finset.sdiff_singleton_eq_erase]
  by_cases hmem : root ∈ univ
  · rw [Finset.add_sum_erase _ (fun x => (succ x).length) hmem]
  · rw [Finset.erase_eq_of_notMem hmem, huniv root hmem]
    simp

/-- **A search with as much fuel as there are edges reports exactly the nodes reachable from the
root, other than the root itself.** -/
theorem mem_reach {univ : Finset α} (huniv : ∀ x, x ∉ univ → succ x = []) {fuel : Nat}
    (hfuel : ∑ x ∈ univ, (succ x).length ≤ fuel) {root x : α} :
    x ∈ reach succ fuel root ↔ x ≠ root ∧ TransGen (Edge succ) root x := by
  obtain ⟨hqueue, hclosed⟩ :=
    bfs_closed huniv (le_trans (work_start_le huniv root) hfuel)
  constructor
  · intro h
    refine ⟨fun hx => not_mem_seen_of_mem_bfs h (hx ▸ List.mem_cons_self), ?_⟩
    obtain ⟨q, hq, hqx⟩ := reachable_of_mem_bfs h
    exact TransGen.head' hq hqx
  · rintro ⟨hne, hx⟩
    have hall : ∀ y, TransGen (Edge succ) root y → y ∈ [root] ∨ y ∈ reach succ fuel root := by
      intro y hy
      induction hy with
      | single hy => exact hqueue _ hy
      | tail _ hyz ih =>
          rcases ih with hroot | hrep
          · rw [List.mem_singleton] at hroot
            subst hroot
            exact hqueue _ hyz
          · exact hclosed _ hrep _ hyz
    rcases hall x hx with h | h
    · exact absurd (List.mem_singleton.mp h) hne
    · exact h

/-! ### The search comes to its end -/

variable (succ) in
/-- The search without fuel, run until its queue is empty. -/
inductive Runs : List α → List α → List α → Prop
  | done (seen : List α) : Runs seen [] []
  | skip {seen queue out : List α} {next : α} : next ∈ seen → Runs seen queue out →
      Runs seen (next :: queue) out
  | visit {seen queue out : List α} {next : α} : next ∉ seen →
      Runs (next :: seen) (queue ++ succ next) out → Runs seen (next :: queue) (next :: out)

/-- With enough fuel the search empties its queue. -/
theorem runs_bfs {univ : Finset α} (huniv : ∀ x, x ∉ univ → succ x = []) {fuel : Nat}
    {seen queue : List α} (hfuel : work succ univ seen queue ≤ fuel) :
    Runs succ seen queue (bfs succ fuel seen queue) := by
  induction fuel generalizing seen queue with
  | zero =>
      have hnil : queue = [] := List.length_eq_zero_iff.mp (by unfold work at hfuel; omega)
      subst hnil
      exact .done seen
  | succ fuel ih =>
      cases queue with
      | nil => exact .done seen
      | cons next queue =>
          rw [bfs]
          split
          · next hseen =>
            refine .skip hseen (ih ?_)
            simp only [work, List.length_cons] at hfuel ⊢
            omega
          · next hseen =>
            have hvisit : work succ univ (next :: seen) (queue ++ succ next) + 1
                = work succ univ seen (next :: queue) := work_visit huniv hseen
            exact .visit hseen (ih (by omega))

theorem runs_reach {univ : Finset α} (huniv : ∀ x, x ∉ univ → succ x = []) {fuel : Nat}
    (hfuel : ∑ x ∈ univ, (succ x).length ≤ fuel) (root : α) :
    Runs succ [root] (succ root) (reach succ fuel root) :=
  runs_bfs huniv (le_trans (work_start_le huniv root) hfuel)

omit [DecidableEq α] in
/-- What a search reports is new to it, and reported once. -/
theorem Runs.nodup {seen queue out : List α} (h : Runs succ seen queue out) :
    out.Nodup ∧ ∀ x ∈ out, x ∉ seen := by
  induction h with
  | done seen => exact ⟨List.nodup_nil, fun x hx => nomatch hx⟩
  | skip _ _ ih => exact ih
  | visit hseen _ ih =>
      obtain ⟨hnodup, hnew⟩ := ih
      refine ⟨List.nodup_cons.mpr ⟨fun hin => hnew _ hin List.mem_cons_self, hnodup⟩, fun x hx => ?_⟩
      rcases List.mem_cons.mp hx with rfl | hx
      · exact hseen
      · exact fun hin => hnew x hx (List.mem_cons_of_mem _ hin)

end Search
