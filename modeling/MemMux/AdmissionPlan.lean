/-
MemMux/AdmissionPlan.lean

The admission plan as a greedy selection (`plan_admission` in `memmux-sched/src/score.rs`).

Scores are floats; as long as none of the candidates' is NaN they compare as the elements of a
linear order (`Binary64.rank`).  With distinct ids the sort of the source is then the sort by distinct
keys, so that the sorted list depends only on which candidates there are, and the loop over it
is the greedy walk of the library.
-/
import MemMux.Admission
import MemMux.Binary64
import MemMux.Greedy
import MemMux.SortBy

namespace MemMux

open SortBy

/-! ### Scores in a linear order -/

/-- Every score compares with every other, and with itself. -/
def Comparable (cs : List (Candidate Float)) : Prop :=
  ∀ c ∈ cs, ∀ d ∈ cs, (PartialCmp.partialCmp c.score d.score).isSome

/-- The place of a score among the floats. -/
def scoreRank (x : Float) : Int ×ₗ Int ×ₗ Int := Binary64.rank x.toModel.unpack

/-- Scores that compare at all compare as their places do. -/
theorem partialCmp_eq_of_isSome {x y : Float} (h : (PartialCmp.partialCmp x y).isSome) :
    PartialCmp.partialCmp x y = some (compare (scoreRank x) (scoreRank y)) := by
  have hcompare : (x.toModel.unpack.compare y.toModel.unpack).isSome ∨
      (y.toModel.unpack.compare x.toModel.unpack).isSome := by
    simp only [PartialCmp.partialCmp, Binary64.lt_iff_compare, Binary64.beq_iff_compare] at h
    split at h
    · next hlt => exact .inl (hlt ▸ rfl)
    · split at h
      · next hgt => exact .inr (hgt ▸ rfl)
      · split at h
        · next heq => exact .inl (heq ▸ rfl)
        · cases h
  obtain ⟨hx, hy⟩ : x.toModel.unpack ≠ .notANumber ∧ y.toModel.unpack ≠ .notANumber :=
    hcompare.elim Binary64.ne_of_compare_isSome fun h => (Binary64.ne_of_compare_isSome h).symm
  simp only [PartialCmp.partialCmp, Binary64.lt_iff_compare, Binary64.beq_iff_compare,
    Binary64.compare_eq_of_ne hx hy, Binary64.compare_eq_of_ne hy hx, Option.some.injEq,
    compare_lt_iff_lt, compare_eq_iff_eq]
  show (if scoreRank x < scoreRank y then some Ordering.lt
    else if scoreRank y < scoreRank x then some Ordering.gt
    else if scoreRank x = scoreRank y then some Ordering.eq else none) = _
  rcases lt_trichotomy (scoreRank x) (scoreRank y) with hlt | heq | hgt
  · rw [if_pos hlt, compare_lt_iff_lt.mpr hlt]
  · rw [if_neg heq.not_lt, if_neg heq.symm.not_lt, if_pos heq, compare_eq_iff_eq.mpr heq]
  · rw [if_neg hgt.not_gt, if_pos hgt, compare_gt_iff_gt.mpr hgt]

/-! ### The order of the candidates -/

/-- `c` comes before `d` in the plan: a higher score, or the same and a smaller id. -/
def Before (c d : Candidate Float) : Prop := candidateCmp c d = .lt

instance (c d : Candidate Float) : Decidable (Before c d) :=
  inferInstanceAs (Decidable (_ = _))

/-- The place of a candidate in the order of the plan. -/
def candidateKey (c : Candidate Float) : (Int ×ₗ Int ×ₗ Int)ᵒᵈ ×ₗ String :=
  toLex (OrderDual.toDual (scoreRank c.score), c.taskId)

section Sorted

variable {cs : List (Candidate Float)}

theorem Comparable.candidateCmp_eq (hcs : Comparable cs) {c d : Candidate Float} (hc : c ∈ cs)
    (hd : d ∈ cs) : candidateCmp c d = compare (candidateKey c) (candidateKey d) := by
  have hscore := partialCmp_eq_of_isSome (hcs d hd c hc)
  rw [candidateCmp, hscore, candidateKey, candidateKey, Prod.Lex.compare_def]
  rfl

theorem Comparable.before_iff (hcs : Comparable cs) {c d : Candidate Float} (hc : c ∈ cs)
    (hd : d ∈ cs) : Before c d ↔ candidateKey c < candidateKey d := by
  rw [Before, hcs.candidateCmp_eq hc hd, compare_lt_iff_lt]

/-- Candidates with distinct ids have distinct places. -/
theorem nodup_map_candidateKey (hids : (cs.map (·.taskId)).Nodup) :
    (cs.map candidateKey).Nodup := by
  refine List.Nodup.of_map (fun k => (ofLex k).2) ?_
  rw [List.map_map]
  exact hids

/-- The sort of the source is the sort by places. -/
theorem Comparable.sortCandidates_eq (hcs : Comparable cs) :
    sortCandidates cs = sortBy candidateKey cs := by
  have hmap := List.map_insertionSort (fun c d : Candidate Float => candidateCmp c d ≠ .gt)
    (fun c d : Candidate Float => candidateKey c ≤ candidateKey d) id cs
    fun c hc d hd => by
      rw [hcs.candidateCmp_eq hc hd, Ne, compare_gt_iff_gt, not_lt]
      rfl
  rw [List.map_id, List.map_id] at hmap
  exact hmap

/-- **The sorted candidates come strictly one before the other.** -/
theorem Comparable.pairwise_sortCandidates (hcs : Comparable cs)
    (hids : (cs.map (·.taskId)).Nodup) : (sortCandidates cs).Pairwise Before := by
  have hasc : Ascending candidateKey (sortCandidates cs) := by
    rw [hcs.sortCandidates_eq]
    exact pairwise_sortBy (nodup_map_candidateKey hids)
  refine List.Pairwise.imp_of_mem (fun hc hd hlt => ?_) hasc
  exact (hcs.before_iff (mem_sortCandidates.mp hc) (mem_sortCandidates.mp hd)).mpr hlt

/-- **The sorted list depends only on which candidates there are.** -/
theorem Comparable.sortCandidates_perm (hcs : Comparable cs) (hids : (cs.map (·.taskId)).Nodup)
    {cs' : List (Candidate Float)} (hperm : cs'.Perm cs) :
    sortCandidates cs' = sortCandidates cs := by
  have hcs' : Comparable cs' := fun c hc d hd => hcs c (hperm.subset hc) d (hperm.subset hd)
  have hids' : (cs'.map (·.taskId)).Nodup := (hperm.map _).nodup_iff.mpr hids
  rw [hcs'.sortCandidates_eq, hcs.sortCandidates_eq]
  exact sortBy_congr (nodup_map_candidateKey hids') (nodup_map_candidateKey hids)
    fun c => hperm.mem_iff

end Sorted

/-! ### The loop -/

/-- The loop admits what the greedy walk takes. -/
theorem admitted_admitLoop (cs : List (Candidate Float)) (remaining : Nat) :
    (admitLoop cs remaining).admitted
      = (Greedy.take (·.predictedPeakBytes) cs remaining).map (·.taskId) := by
  induction cs generalizing remaining with
  | nil => rfl
  | cons c cs ih =>
      rw [admitLoop, Greedy.take]
      split
      · rw [List.map_cons, ← ih]
      · rw [← ih]

/-! ### The plan -/

/-- The candidates of a list that a plan admits. -/
def admittedOf (cs : List (Candidate Float)) (plan : AdmissionPlan) : List (Candidate Float) :=
  cs.filter fun c => c.taskId ∈ plan.admitted

/-- The sum of the predicted peaks. -/
def peaks (cs : List (Candidate Float)) : Nat := (cs.map (·.predictedPeakBytes)).sum

section Plan

variable {cs : List (Candidate Float)}

/-- The candidates admitted in the order of the plan. -/
def keptBy (cs : List (Candidate Float)) (available : Nat) : List (Candidate Float) :=
  Greedy.take (·.predictedPeakBytes) (sortCandidates cs) available

theorem admitted_planAdmission (cs : List (Candidate Float)) (available : Nat) :
    (planAdmission cs available).admitted = (keptBy cs available).map (·.taskId) :=
  admitted_admitLoop _ _

theorem mem_of_mem_keptBy {available : Nat} {c : Candidate Float} (h : c ∈ keptBy cs available) :
    c ∈ cs :=
  mem_sortCandidates.mp ((Greedy.take_sublist _ _).subset h)

/-- With distinct ids a candidate is kept exactly when its id is admitted. -/
theorem mem_admitted_iff (hids : (cs.map (·.taskId)).Nodup) {available : Nat}
    {c : Candidate Float} (hc : c ∈ cs) :
    c.taskId ∈ (planAdmission cs available).admitted ↔ c ∈ keptBy cs available := by
  rw [admitted_planAdmission, List.mem_map]
  constructor
  · rintro ⟨d, hd, hid⟩
    rwa [← List.inj_on_of_nodup_map hids (mem_of_mem_keptBy hd) hc hid]
  · exact fun h => ⟨c, h, rfl⟩

theorem nodup_sortCandidates (hids : (cs.map (·.taskId)).Nodup) : (sortCandidates cs).Nodup :=
  (List.perm_insertionSort _ cs).nodup_iff.mpr (List.Nodup.of_map _ hids)

theorem perm_keptBy (hids : (cs.map (·.taskId)).Nodup) (available : Nat) :
    (keptBy cs available).Perm (admittedOf cs (planAdmission cs available)) := by
  refine (List.perm_ext_iff_of_nodup ?_ ?_).mpr fun c => ?_
  · exact (nodup_sortCandidates hids).sublist (Greedy.take_sublist _ _)
  · exact (List.Nodup.of_map _ hids).sublist List.filter_sublist
  · rw [admittedOf, List.mem_filter]
    refine ⟨fun h => ?_, fun ⟨hc, h⟩ => ?_⟩
    · have hc := mem_of_mem_keptBy h
      exact ⟨hc, decide_eq_true ((mem_admitted_iff hids hc).mpr h)⟩
    · exact (mem_admitted_iff hids hc).mp (of_decide_eq_true h)

/-- **A candidate is admitted exactly when it fits beside the admitted ones before it.** -/
theorem mem_keptBy_iff (hcs : Comparable cs) (hids : (cs.map (·.taskId)).Nodup) (available : Nat)
    {c : Candidate Float} (hc : c ∈ cs) :
    c ∈ keptBy cs available
      ↔ peaks ((keptBy cs available).filter fun d => Before d c) + c.predictedPeakBytes
        ≤ available := by
  obtain ⟨as, bs, hsplit⟩ := List.append_of_mem (mem_sortCandidates.mpr hc)
  have hmem : ∀ {d}, d ∈ as ++ c :: bs → d ∈ cs := fun hd =>
    mem_sortCandidates.mp (hsplit ▸ hd)
  have hsorted := hcs.pairwise_sortCandidates hids
  rw [hsplit, List.pairwise_append, List.pairwise_cons] at hsorted
  obtain ⟨-, ⟨hafter, -⟩, hbefore⟩ := hsorted
  have hnot : ∀ d ∈ c :: bs, ¬ Before d c := by
    intro d hd h
    have hlt := (hcs.before_iff (hmem (List.mem_append_right _ hd)) hc).mp h
    rcases List.mem_cons.mp hd with rfl | hd'
    · exact lt_irrefl _ hlt
    · exact ((hcs.before_iff hc (hmem (List.mem_append_right _ hd))).mp (hafter d hd')).not_gt hlt
  -- the kept candidates before `c` are those the walk takes before it reaches `c`
  have hkept : (keptBy cs available).filter (fun d => Before d c)
      = Greedy.take (·.predictedPeakBytes) as available := by
    rw [keptBy, hsplit, Greedy.take_append, List.filter_append]
    have hfirst : ∀ d ∈ Greedy.take (·.predictedPeakBytes) as available,
        decide (Before d c) = true := fun d hd =>
      decide_eq_true (hbefore d ((Greedy.take_sublist _ _).subset hd) c List.mem_cons_self)
    have hsecond : ∀ r, ∀ d ∈ Greedy.take (·.predictedPeakBytes) (c :: bs) r,
        ¬ decide (Before d c) = true := fun r d hd h =>
      hnot d ((Greedy.take_sublist _ _).subset hd) (of_decide_eq_true h)
    rw [List.filter_eq_self.mpr hfirst, List.filter_eq_nil_iff.mpr (hsecond _), List.append_nil]
  rw [hkept, keptBy, hsplit]
  exact Greedy.mem_take_iff (hsplit ▸ nodup_sortCandidates hids) available

/-- **The plan is the maximal greedy one.**  For candidates with distinct ids and comparable
scores: every candidate is admitted or deferred, once; the admitted peaks fit in what is
available; the admitted candidates come in the order of the plan; a candidate is admitted exactly
when it fits beside the admitted ones before it; a deferred one does not fit in what remains at
the end; and the order in which the candidates are listed does not matter. -/
theorem planAdmission_greedy (cs : List (Candidate Float)) (available : Nat)
    (hids : (cs.map (·.taskId)).Nodup)
    (hscores : ∀ c ∈ cs, ∀ d ∈ cs, (PartialCmp.partialCmp c.score d.score).isSome) :
    ((planAdmission cs available).admitted
        ++ (planAdmission cs available).deferred.map (·.1)).Perm (cs.map (·.taskId)) ∧
      peaks (admittedOf cs (planAdmission cs available)) ≤ available ∧
      (∃ kept : List (Candidate Float), kept.Perm (admittedOf cs (planAdmission cs available)) ∧
        kept.Pairwise Before ∧ (planAdmission cs available).admitted = kept.map (·.taskId)) ∧
      (∀ c ∈ cs, c.taskId ∈ (planAdmission cs available).admitted ↔
        peaks ((admittedOf cs (planAdmission cs available)).filter fun d => Before d c)
          + c.predictedPeakBytes ≤ available) ∧
      (∀ c ∈ cs, c.taskId ∈ (planAdmission cs available).deferred.map (·.1) →
        available - peaks (admittedOf cs (planAdmission cs available)) < c.predictedPeakBytes) ∧
      ∀ cs' : List (Candidate Float), cs'.Perm cs →
        planAdmission cs' available = planAdmission cs available := by
  have hcs : Comparable cs := hscores
  have hkept := perm_keptBy hids available
  have hpeaks : peaks (admittedOf cs (planAdmission cs available))
      = Greedy.total (·.predictedPeakBytes) (keptBy cs available) :=
    (Greedy.total_perm hkept).symm
  have hperm : ((planAdmission cs available).admitted
      ++ (planAdmission cs available).deferred.map (·.1)).Perm (cs.map (·.taskId)) :=
    (admitLoop_perm (sortCandidates cs) available).trans ((List.perm_insertionSort _ cs).map _)
  -- budget, order, the greedy rule, the deferred, and independence of the listing
  refine ⟨hperm, ?_, ⟨keptBy cs available, hkept, ?_, admitted_planAdmission cs available⟩,
    fun c hc => ?_, fun c hc hdeferred => ?_, fun cs' hcs' => ?_⟩
  · rw [hpeaks]
    exact Greedy.total_take_le _ _
  · exact (hcs.pairwise_sortCandidates hids).sublist (Greedy.take_sublist _ _)
  · rw [mem_admitted_iff hids hc, mem_keptBy_iff hcs hids available hc]
    rw [peaks, peaks, ((hkept.filter _).map _).sum_eq]
  · have hnot : c ∉ keptBy cs available := by
      intro hin
      have hadmitted := (mem_admitted_iff hids hc).mpr hin
      exact List.disjoint_of_nodup_append (hperm.nodup_iff.mpr hids) hadmitted hdeferred
    rw [hpeaks]
    exact Greedy.lt_of_not_mem_take (mem_sortCandidates.mpr hc) hnot
  · rw [planAdmission, planAdmission, hcs.sortCandidates_perm hids hcs']

/-- Three tasks under 10 bytes: the best is admitted, the next does not fit, the last does. -/
theorem planAdmission_greedy_skips :
    let cs : List (Candidate Float) := [⟨"task_3", 1.0, 2⟩, ⟨"task_1", 3.0, 7⟩, ⟨"task_2", 2.0, 5⟩]
    (planAdmission cs 10).admitted = ["task_1", "task_3"] ∧
      peaks (admittedOf cs (planAdmission cs 10)) ≤ 10 ∧
      ∀ cs' : List (Candidate Float), cs'.Perm cs → planAdmission cs' 10 = planAdmission cs 10 := by
  intro cs
  obtain ⟨-, hpeaks, -, -, -, horder⟩ :=
    planAdmission_greedy cs 10 (by decide) (by decide +kernel)
  exact ⟨by decide +kernel, hpeaks, horder⟩

end Plan

end MemMux
