/-
MemMux/Walks.lean

The walks down and up a process tree (`memmux-metrics/src/tree.rs`).

Both walks come to their end on any samples, cyclic or not (`wellWalked`).  They are dual when every
pid was sampled once.  A repeated pid keeps its last sample, but the child lists keep the parent
links of all of them, so the walk down follows links that the walk up does not know.
-/
import Mathlib.Data.List.Chain
import MemMux.ProcessTree

namespace MemMux

namespace ProcessTree

open Relation

variable {t : ProcessTree}

/-! ### Each walk by itself -/

/-- What a walk up reports is reported once. -/
theorem Climbs.nodup {seen out : List Pid} {cursor : Pid} (h : t.Climbs seen cursor out) :
    out.Nodup := by
  induction h with
  | unsampled _ => exact List.nodup_nil
  | cycle _ _ => exact List.nodup_nil
  | missing _ _ => exact List.nodup_nil
  | up _ _ _ hrest ih =>
      exact List.nodup_cons.mpr ⟨fun hin => (hrest.sound hin).2.1 List.mem_cons_self, ih⟩

/-- Each pid that a walk up reports is the parent of the one before it. -/
theorem Climbs.isChain {seen out : List Pid} {cursor : Pid} (h : t.Climbs seen cursor out) :
    (cursor :: out).IsChain fun q p => t.IsParent p q := by
  induction h with
  | unsampled _ => exact .singleton _
  | cycle _ _ => exact .singleton _
  | missing _ _ => exact .singleton _
  | up hs _ _ _ ih => exact List.isChain_cons_cons.mpr ⟨⟨_, hs, rfl⟩, ih⟩

theorem runs_descendants (t : ProcessTree) (p : Pid) :
    Search.Runs t.children [p] (t.children p) (t.descendants p) :=
  Search.runs_reach children_eq_nil t.sum_children_le p

/-- **Both walks from a pid end**, report no pid twice and not the pid itself; and the walk up lists
each parent after its child. -/
structure WellWalked (t : ProcessTree) (p : Pid) : Prop where
  down : Search.Runs t.children [p] (t.children p) (t.descendants p)
  up : t.Climbs [p] p (t.ancestors p)
  nodup_down : (t.descendants p).Nodup
  nodup_up : (t.ancestors p).Nodup
  not_mem_down : p ∉ t.descendants p
  not_mem_up : p ∉ t.ancestors p
  chain : (p :: t.ancestors p).IsChain fun q p => t.IsParent p q

theorem wellWalked (t : ProcessTree) (p : Pid) : t.WellWalked p := by
  obtain ⟨hdown, hnotDown⟩ := (t.runs_descendants p).nodup
  have hclimbs := t.climbs_ancestors p
  exact ⟨t.runs_descendants p, hclimbs, hdown, hclimbs.nodup,
    fun h => hnotDown p h List.mem_cons_self, fun h => (hclimbs.sound h).2.1 List.mem_cons_self,
    hclimbs.isChain⟩

/-! ### Down and up -/

/-- For sampled pids the walk down meets `q` exactly if the walk up from `q` meets the start. -/
def WalksAgree (t : ProcessTree) : Prop :=
  ∀ p q, (t.get p).isSome → (t.get q).isSome → p ≠ q → (q ∈ t.descendants p ↔ p ∈ t.ancestors q)

/-- **Replaced samples leave no link behind**: the parent in a sample that a later one of the same pid
replaced is still above the pid, if it was sampled at all and is not the pid itself. -/
def StaleLinksStand (t : ProcessTree) : Prop :=
  ∀ s ∈ t.samples, t.get s.pid ≠ some s → (t.get s.ppid).isSome → s.ppid ≠ s.pid →
    TransGen t.IsParent s.ppid s.pid

theorem StaleLinksStand.parents_of_isChild (h : t.StaleLinksStand) {p q : Pid} (hp : (t.get p).isSome)
    (hpq : t.IsChild p q) : ReflTransGen t.IsParent p q := by
  obtain ⟨s, hs, rfl, rfl⟩ := hpq
  by_cases hkept : t.get s.pid = some s
  · exact .single ⟨s, hkept, rfl⟩
  · by_cases hself : s.ppid = s.pid
    · rw [hself]
    · exact (h s hs hkept hp hself).to_reflTransGen

theorem StaleLinksStand.parents_of_reach (h : t.StaleLinksStand) {p q : Pid} (hp : (t.get p).isSome)
    (hpq : TransGen t.IsChild p q) : ReflTransGen t.IsParent p q := by
  induction hpq with
  | single hstep => exact h.parents_of_isChild hp hstep
  | tail habove hstep ih => exact ih.trans (h.parents_of_isChild (isSome_of_reach habove) hstep)

/-- **When the two walks are dual.**  Whatever the samples, both walks end, without repetition and in
order; and they agree on all sampled pids exactly if replaced samples leave no link behind. -/
theorem walks_dual_iff (samples : List ProcessSample) :
    let t := fromSamples samples
    (t.WalksAgree ∧ ∀ p, t.WellWalked p) ↔ t.StaleLinksStand := by
  intro t
  constructor
  · rintro ⟨hagree, -⟩ s hs - hsampled hne
    have hdown : s.pid ∈ t.descendants s.ppid :=
      mem_descendants.mpr ⟨fun heq => hne heq.symm, .single ⟨s, hs, rfl, rfl⟩⟩
    have hup := (hagree s.ppid s.pid hsampled (isSome_get.mpr ⟨s, hs, rfl⟩) hne).mp hdown
    exact (mem_ancestors.mp hup).2.2
  · intro hstand
    refine ⟨fun p q hp hq hne => ?_, t.wellWalked⟩
    rw [mem_descendants, mem_ancestors]
    constructor
    · rintro ⟨-, hreach⟩
      rcases reflTransGen_iff_eq_or_transGen.mp (hstand.parents_of_reach hp hreach) with heq | habove
      · exact absurd heq.symm hne
      · exact ⟨hne, hp, habove⟩
    · rintro ⟨-, -, habove⟩
      exact ⟨hne.symm, TransGen.mono (fun _ _ => IsParent.isChild) _ _ habove⟩

/-- With distinct pids nothing is replaced. -/
theorem Distinct.staleLinksStand (ht : t.Distinct) : t.StaleLinksStand :=
  fun _ hs hkept => absurd (ht.get_iff.mpr ⟨hs, rfl⟩) hkept

/-- Process 5 was sampled under 1 and then under 2: it is a descendant of 1, and 1 is no ancestor of
it. -/
theorem replaced_link_followed :
    let t := fromSamples [⟨1, 0, "init", 0, none, none⟩, ⟨2, 0, "shell", 0, none, none⟩,
      ⟨5, 1, "server", 0, none, none⟩, ⟨5, 2, "server", 0, none, none⟩]
    5 ∈ t.descendants 1 ∧ 1 ∉ t.ancestors 5 ∧ ¬ t.WalksAgree := by
  have hdown : (5 : Pid) ∈ (fromSamples [⟨1, 0, "init", 0, none, none⟩, ⟨2, 0, "shell", 0, none, none⟩,
      ⟨5, 1, "server", 0, none, none⟩, ⟨5, 2, "server", 0, none, none⟩]).descendants 1 := by
    decide +kernel
  have hup : (1 : Pid) ∉ (fromSamples [⟨1, 0, "init", 0, none, none⟩, ⟨2, 0, "shell", 0, none, none⟩,
      ⟨5, 1, "server", 0, none, none⟩, ⟨5, 2, "server", 0, none, none⟩]).ancestors 5 := by
    decide +kernel
  exact ⟨hdown, hup, fun h => hup ((h 1 5 (by decide) (by decide) (by decide)).mp hdown)⟩

end ProcessTree

end MemMux
