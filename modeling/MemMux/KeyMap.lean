/-
MemMux/KeyMap.lean

Finite maps with unique keys, over Mathlib's `AList`.

Mathlib supplies `lookup`, `insert`, `erase` and membership.  Two things are added: lookup after
an update as one `if`, so that a simp call decides it at any key, and `sumBy`, the total of
a measure over the values of a map, with the two equations that say how an update
changes it.  The total splits off the value at one key, so insertion and removal are both
instances of one fact (`sumBy_split`).
-/
import Mathlib.Algebra.BigOperators.Group.List.Basic
import Mathlib.Algebra.GroupWithZero.Nat
import Mathlib.Data.List.AList

/-- Finite maps from `κ` to `β`. -/
abbrev KeyMap (κ β : Type) := AList fun _ : κ => β

namespace KeyMap

variable {κ β : Type} [DecidableEq κ]

/-! ### Lookup -/

theorem lookup_insert_ite (m : KeyMap κ β) (a k : κ) (b : β) :
    (m.insert a b).lookup k = if k = a then some b else m.lookup k := by
  by_cases h : k = a
  · subst h
    simp
  · rw [if_neg h]
    exact AList.lookup_insert_ne h

theorem lookup_erase_ite (m : KeyMap κ β) (a k : κ) :
    (m.erase a).lookup k = if k = a then none else m.lookup k := by
  by_cases h : k = a
  · subst h
    simp
  · rw [if_neg h]
    exact AList.lookup_erase_ne h

theorem mem_iff_lookup {m : KeyMap κ β} {k : κ} : k ∈ m ↔ ∃ b, m.lookup k = some b := by
  rw [← AList.lookup_isSome, Option.isSome_iff_exists]

theorem not_mem_iff_lookup {m : KeyMap κ β} {k : κ} : k ∉ m ↔ m.lookup k = none :=
  (AList.lookup_eq_none).symm

theorem mem_insert_iff (m : KeyMap κ β) (a k : κ) (b : β) :
    k ∈ m.insert a b ↔ k = a ∨ k ∈ m :=
  AList.mem_insert m

theorem mem_erase_iff (m : KeyMap κ β) (a k : κ) : k ∈ m.erase a ↔ k ≠ a ∧ k ∈ m :=
  AList.mem_erase

/-- Erasing an absent key changes nothing. -/
theorem erase_of_not_mem {m : KeyMap κ β} {a : κ} (h : a ∉ m) : m.erase a = m := by
  refine AList.ext ?_
  show List.kerase a m.entries = m.entries
  exact List.kerase_of_notMem_keys h

/-- The two maps look up alike everywhere but at `a`. -/
def Off (a : κ) (m m' : KeyMap κ β) : Prop := ∀ k, k ≠ a → m'.lookup k = m.lookup k

theorem Off.refl (a : κ) (m : KeyMap κ β) : Off a m m := fun _ _ => rfl

theorem Off.trans {a : κ} {m m' m'' : KeyMap κ β} (h : Off a m m') (h' : Off a m' m'') :
    Off a m m'' :=
  fun k hk => (h' k hk).trans (h k hk)

theorem off_insert (m : KeyMap κ β) (a : κ) (b : β) : Off a m (m.insert a b) :=
  fun _ hk => AList.lookup_insert_ne hk

theorem off_erase (m : KeyMap κ β) (a : κ) : Off a m (m.erase a) :=
  fun _ hk => AList.lookup_erase_ne hk

/-! ### Values -/

/-- The values of a map, in the order of its entries. -/
def values (m : KeyMap κ β) : List β := m.entries.map (·.2)

/-- The map built from a list of pairs; a later pair replaces an earlier one. -/
def ofList (xs : List (κ × β)) : KeyMap κ β :=
  xs.foldl (fun m x => m.insert x.1 x.2) ∅

theorem lookup_foldl_insert {f : κ → Option β} (xs : List (κ × β)) (m : KeyMap κ β)
    (hf : ∀ x ∈ xs, f x.1 = some x.2) (k : κ) :
    (xs.foldl (fun m x => m.insert x.1 x.2) m).lookup k
      = if k ∈ xs.map (·.1) then f k else m.lookup k := by
  induction xs generalizing m with
  | nil => rfl
  | cons x xs ih =>
      have hx := hf x List.mem_cons_self
      rw [List.foldl_cons, ih _ (fun y hy => hf y (List.mem_cons_of_mem _ hy)),
        lookup_insert_ite]
      by_cases hk : k = x.1
      · subst hk
        simp [hx]
      · simp only [List.map_cons, List.mem_cons, hk, false_or, if_false]

/-- What is looked up in the map built from a list of pairs is one of the pairs. -/
theorem mem_of_lookup_ofList {xs : List (κ × β)} {k : κ} {b : β}
    (h : (ofList xs).lookup k = some b) : (k, b) ∈ xs := by
  have key : ∀ (xs : List (κ × β)) (m : KeyMap κ β),
      (xs.foldl (fun m x => m.insert x.1 x.2) m).lookup k = some b →
      (k, b) ∈ xs ∨ m.lookup k = some b := by
    intro xs
    induction xs with
    | nil => exact fun m hm => Or.inr hm
    | cons x xs ih =>
        intro m hm
        rcases ih (m.insert x.1 x.2) hm with hin | hm'
        · exact Or.inl (List.mem_cons_of_mem _ hin)
        · rw [lookup_insert_ite] at hm'
          split at hm'
          · next hk =>
            rw [hk, ← Option.some.inj hm']
            exact Or.inl List.mem_cons_self
          · exact Or.inr hm'
  exact (key xs ∅ h).resolve_right (by simp)

/-- The keys of the map built from a list of pairs are those of the list. -/
theorem mem_ofList {xs : List (κ × β)} {k : κ} : k ∈ ofList xs ↔ k ∈ xs.map (·.1) := by
  have key : ∀ (xs : List (κ × β)) (m : KeyMap κ β),
      k ∈ xs.foldl (fun m x => m.insert x.1 x.2) m ↔ k ∈ xs.map (·.1) ∨ k ∈ m := by
    intro xs
    induction xs with
    | nil => simp
    | cons x xs ih =>
        intro m
        rw [List.foldl_cons, ih, mem_insert_iff, List.map_cons, List.mem_cons]
        tauto
  rw [ofList, key]
  simp

/-- A list of pairs that is the graph of `f` builds a map that looks up like `f`. -/
theorem lookup_ofList {f : κ → Option β} {xs : List (κ × β)}
    (hf : ∀ k b, (k, b) ∈ xs ↔ f k = some b) (k : κ) : (ofList xs).lookup k = f k := by
  rw [ofList, lookup_foldl_insert xs ∅ (fun x hx => (hf x.1 x.2).mp hx)]
  split
  · rfl
  · next hk =>
    cases hfk : f k with
    | none => simp
    | some b => exact absurd (List.mem_map.mpr ⟨(k, b), (hf k b).mpr hfk, rfl⟩) hk

/-- Keep the entries whose key and value satisfy `p`. -/
def filter (p : κ → β → Bool) (m : KeyMap κ β) : KeyMap κ β :=
  ⟨m.entries.filter fun e => p e.1 e.2, m.nodupKeys.sublist List.filter_sublist⟩

/-- What is kept was there. -/
theorem lookup_of_lookup_filter {p : κ → β → Bool} {m : KeyMap κ β} {k : κ} {b : β}
    (h : (filter p m).lookup k = some b) : m.lookup k = some b := by
  rw [← Option.mem_def, AList.mem_lookup_iff] at h ⊢
  exact (List.mem_filter.mp h).1

/-! ### Totals -/

/-- The total of a measure over the values of a map. -/
def sumBy (f : β → Nat) (m : KeyMap κ β) : Nat := (m.values.map f).sum

omit [DecidableEq κ] in
@[simp] theorem sumBy_empty (f : β → Nat) : sumBy f (∅ : KeyMap κ β) = 0 := rfl

/-- The total over a list of entries splits off the entry at one key. -/
theorem sum_kerase (f : β → Nat) (a : κ) (l : List (Sigma fun _ : κ => β)) :
    (l.map fun e => f e.2).sum
      = ((l.dlookup a).map f).getD 0 + ((l.kerase a).map fun e => f e.2).sum := by
  induction l with
  | nil => rfl
  | cons e l ih =>
      obtain ⟨k, b⟩ := e
      by_cases h : a = k
      · subst h
        simp
      · rw [List.dlookup_cons_ne _ _ h, List.kerase_cons_ne h]
        simp only [List.map_cons, List.sum_cons]
        omega

/-- **The total of a map is the measure at one key plus the total of the rest.** -/
theorem sumBy_split (f : β → Nat) (m : KeyMap κ β) (a : κ) :
    sumBy f m = ((m.lookup a).map f).getD 0 + sumBy f (m.erase a) := by
  unfold sumBy values
  simp only [List.map_map]
  exact sum_kerase f a m.entries

theorem sumBy_insert (f : β → Nat) (m : KeyMap κ β) (a : κ) (b : β) :
    sumBy f (m.insert a b) = f b + sumBy f (m.erase a) := by
  simp only [sumBy, values, AList.entries_insert, List.map_cons, List.sum_cons]
  rfl

theorem sumBy_erase_le (f : β → Nat) (m : KeyMap κ β) (a : κ) :
    sumBy f (m.erase a) ≤ sumBy f m := by
  rw [sumBy_split f m a]
  exact Nat.le_add_left _ _

end KeyMap
