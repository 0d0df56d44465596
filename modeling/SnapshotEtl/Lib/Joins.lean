/-
Joins that look one row up for each row of their left side.

A `LEFT ANY JOIN` gives every left row once: with a right row of its key, no matter
which, or with none where there is none. So it has more than one result where the right
side has a key twice, and its results come in any order.
-/
import Mathlib.Data.List.Perm.Basic

set_option autoImplicit false

namespace SnapshotEtl.Lib

variable {L R K : Type*}

/-- What may be found of a key: one of its rows, or nothing where it has none. -/
def Finds (key : R → K) (right : List R) (k : K) (found : Option R) : Prop :=
  (∀ r, found = some r → r ∈ right ∧ key r = k) ∧ (found = none → ∀ r ∈ right, key r ≠ k)

theorem finds_some {key : R → K} {right : List R} {k : K} {r : R} :
    Finds key right k (some r) ↔ r ∈ right ∧ key r = k := by
  simp [Finds]

theorem finds_none {key : R → K} {right : List R} {k : K} :
    Finds key right k none ↔ ∀ r ∈ right, key r ≠ k := by
  simp [Finds]

instance [DecidableEq K] [DecidableEq R] (key : R → K) (right : List R) (k : K) :
    DecidablePred (Finds key right k)
  | some _ => decidable_of_iff _ finds_some.symm
  | none => decidable_of_iff _ finds_none.symm

/-- Rows of other keys may be left out before the join. -/
theorem finds_filter {key : R → K} {right : List R} {k : K} {found : Option R} {q : R → Bool}
    (hq : ∀ r, key r = k → q r = true) :
    Finds key (right.filter q) k found ↔ Finds key right k found := by
  cases found with
  | none =>
      rw [finds_none, finds_none]
      refine forall_congr' fun r => ?_
      rw [List.mem_filter]
      exact ⟨fun h hr hk => h ⟨hr, hq r hk⟩ hk, fun h hr => h hr.1⟩
  | some r =>
      rw [finds_some, finds_some, List.mem_filter, and_assoc]
      exact and_congr_right fun _ => and_iff_right_of_imp (hq r)

/-- Something is found of every key. -/
theorem exists_finds (key : R → K) (right : List R) (k : K) : ∃ found, Finds key right k found := by
  by_cases h : ∃ r ∈ right, key r = k
  · obtain ⟨r, hr, hk⟩ := h
    exact ⟨some r, finds_some.mpr ⟨hr, hk⟩⟩
  · refine ⟨none, finds_none.mpr fun r hr hk => h ⟨r, hr, hk⟩⟩

/-- A result of `left LEFT ANY JOIN right`, in some order. -/
structure LeftAnyJoin (left_key : L → K) (key : R → K) (left : List L) (right : List R)
    (joined : List (L × Option R)) : Prop where
  once : (joined.map Prod.fst).Perm left
  finds : ∀ p ∈ joined, Finds key right (left_key p.1) p.2

instance [DecidableEq K] [DecidableEq L] [DecidableEq R] (left_key : L → K) (key : R → K)
    (left : List L) (right : List R) :
    DecidablePred (LeftAnyJoin left_key key left right) := fun joined =>
  decidable_of_iff ((joined.map Prod.fst).Perm left ∧
      ∀ p ∈ joined, Finds key right (left_key p.1) p.2)
    ⟨fun h => ⟨h.1, h.2⟩, fun h => ⟨h.once, h.finds⟩⟩

/-- There is a result in the order of the left side. -/
theorem exists_left_any_join (left_key : L → K) (key : R → K) (left : List L) (right : List R) :
    ∃ joined, joined.map Prod.fst = left ∧ LeftAnyJoin left_key key left right joined := by
  induction left with
  | nil => exact ⟨[], rfl, .refl _, fun p hp => absurd hp List.not_mem_nil⟩
  | cons l left ih =>
      obtain ⟨joined, hjoined, h⟩ := ih
      obtain ⟨found, hfound⟩ := exists_finds key right (left_key l)
      have hmap : ((l, found) :: joined).map Prod.fst = l :: left := by rw [List.map_cons, hjoined]
      refine ⟨(l, found) :: joined, hmap, hmap ▸ .refl _, ?_⟩
      rw [List.forall_mem_cons]
      exact ⟨hfound, h.finds⟩

end SnapshotEtl.Lib
