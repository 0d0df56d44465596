/-
Folds that may be split: maps keeping one value per key, and summaries of a
list of operations that do not depend on the order of the operations nor on how
they were shared out between accumulators.

A `Summary` is what a worker of a parallel job accumulates. Its laws are those
of one step (two steps commute, a step may be done before or after a merge), and
they give what a whole job needs: merging a part in is running its operations
(`Summary.merge_of`), and their order does not show (`Summary.of_perm`).
`GreatestOf` is what a fold that keeps the greatest has kept of a set, or of a
window of it.
-/
import Mathlib.Data.Finmap
import Mathlib.Data.Finset.Sort
import Mathlib.Order.WithBot
import Mathlib.Order.Bounds.Basic
import Mathlib.Algebra.Order.Monoid.Unbundled.Defs

set_option autoImplicit false

namespace SnapshotEtl.Lib

/-! ## Maps with an update rule -/

section Upsert

variable {K V : Type*} [DecidableEq K]

abbrev FMap (K V : Type*) := Finmap fun _ : K => V

/-- Replace the value of `k` by `f` of what is stored there. -/
def upsert (m : FMap K V) (k : K) (f : Option V → V) : FMap K V :=
  m.insert k (f (m.lookup k))

/-- An update changes one key. -/
theorem lookup_upsert (m : FMap K V) (k k' : K) (f : Option V → V) :
    (upsert m k f).lookup k' = if k' = k then some (f (m.lookup k)) else m.lookup k' := by
  by_cases h : k' = k
  · subst h
    rw [if_pos rfl, upsert, Finmap.lookup_insert]
  · rw [if_neg h, upsert, Finmap.lookup_insert_of_ne _ h]

/-- An update adds at most one key. -/
theorem card_keys_upsert_le (m : FMap K V) (k : K) (f : Option V → V) :
    (upsert m k f).keys.card ≤ m.keys.card + 1 := by
  have hkeys : (upsert m k f).keys = insert k m.keys := by
    ext x
    simp only [upsert, Finmap.mem_keys, Finmap.mem_insert, Finset.mem_insert]
  rw [hkeys]
  exact Finset.card_insert_le ..

/-- Updates commute when they commute at one key. -/
theorem upsert_comm (m : FMap K V) (k k' : K) (f g : Option V → V)
    (h : ∀ o, g (some (f o)) = f (some (g o))) :
    upsert (upsert m k f) k' g = upsert (upsert m k' g) k f := by
  apply Finmap.ext_lookup
  intro x
  simp only [lookup_upsert]
  by_cases hkk : k' = k
  · subst hkk
    by_cases hx : x = k' <;> simp [hx, h]
  · by_cases hx : x = k
    · subst hx
      simp [Ne.symm hkk]
    · by_cases hx' : x = k'
      · subst hx'
        simp [hx]
      · simp [hx, hx']

end Upsert

section SortedKeys

variable {K V : Type*} [LinearOrder K]

/-- The keys in order, as a writer that sorts them goes through them. -/
def sorted_keys (m : FMap K V) : List K := m.keys.sort (· ≤ ·)

@[simp] theorem mem_sorted_keys {m : FMap K V} {k : K} : k ∈ sorted_keys m ↔ k ∈ m := by
  rw [sorted_keys, Finset.mem_sort, Finmap.mem_keys]

theorem sorted_keys_nodup (m : FMap K V) : (sorted_keys m).Nodup := Finset.sort_nodup ..

end SortedKeys

/-! ## Maps keeping the greatest value -/

section KeepMax

variable {K V : Type*} [DecidableEq K] [LinearOrder V]

/-- An optional value as an element of the order with `none` at the bottom. -/
def as_bot : Option V → WithBot V
  | none => ⊥
  | some v => ↑v

omit [LinearOrder V] in
/-- No value and a value are told apart. -/
theorem as_bot_injective : Function.Injective (as_bot (V := V)) := by
  intro a b h
  cases a <;> cases b <;> simp_all [as_bot]

/-- The candidate replaces what is stored unless that is at least as great. -/
def later (current : Option V) (candidate : V) : V :=
  match current with
  | none => candidate
  | some c => if c < candidate then candidate else c

/-- `later` is the maximum. -/
theorem as_bot_later (current : Option V) (candidate : V) :
    as_bot (some (later current candidate)) = max (as_bot current) ↑candidate := by
  cases current with
  | none => simp [as_bot, later]
  | some c =>
      simp only [as_bot, later, ← WithBot.coe_max]
      split
      · next h => rw [max_eq_right h.le]
      · next h => rw [max_eq_left (not_lt.mp h)]

/-- The later of three does not depend on the order. -/
theorem later_comm (o : Option V) (a b : V) :
    later (some (later o a)) b = later (some (later o b)) a := by
  apply Option.some_injective
  apply as_bot_injective
  simp only [as_bot_later]
  rw [max_assoc, max_assoc, max_comm (↑a : WithBot V)]

/-- `entry(k).and_modify(keep the greater).or_insert(v)`. -/
def keep_max (m : FMap K V) (k : K) (v : V) : FMap K V :=
  upsert m k (later · v)

/-- What a map holds at a key, absent being least. -/
def value (m : FMap K V) (k : K) : WithBot V := as_bot (m.lookup k)

omit [LinearOrder V] in
/-- Two maps are equal when they have the same greatest value at each key. -/
theorem ext_value {m m' : FMap K V} (h : ∀ k, value m k = value m' k) : m = m' :=
  Finmap.ext_lookup fun k => as_bot_injective (h k)

/-- Keeping the greater value takes the maximum at one key. -/
@[simp] theorem value_keep_max (m : FMap K V) (k k' : K) (v : V) :
    value (keep_max m k v) k' = if k' = k then max (value m k) ↑v else value m k' := by
  unfold value keep_max
  rw [lookup_upsert]
  by_cases h : k' = k
  · rw [if_pos h, if_pos h, as_bot_later]
  · rw [if_neg h, if_neg h]

/-- Two values can be kept in either order. -/
theorem keep_max_comm (m : FMap K V) (k k' : K) (v v' : V) :
    keep_max (keep_max m k v) k' v' = keep_max (keep_max m k' v') k v :=
  upsert_comm m k k' _ _ fun o => later_comm o v v'

/-- What a list of entries leaves at a key is the greatest value it has there. -/
theorem lookup_foldl_keep_max (entries : List (K × V)) (k : K) :
    match (entries.foldl (fun m e => keep_max m e.1 e.2) ∅).lookup k with
    | some v => (k, v) ∈ entries ∧ ∀ v', (k, v') ∈ entries → v' ≤ v
    | none => ∀ v, (k, v) ∉ entries := by
  induction entries using List.reverseRecOn with
  | nil => simp
  | append_singleton entries e ih =>
      obtain ⟨k', v'⟩ := e
      rw [List.foldl_append, List.foldl_cons, List.foldl_nil, keep_max, lookup_upsert]
      by_cases hk : k = k'
      · subst hk
        -- a bound on the values of the key is one on the earlier ones and on the new one
        have hbound : ∀ bound : V, (∀ v, (k, v) ∈ entries → v ≤ bound) → v' ≤ bound →
            ∀ v, (k, v) ∈ entries ++ [(k, v')] → v ≤ bound := by
          intro bound hentries hnew v hv
          rcases List.mem_append.mp hv with hv | hv
          · exact hentries v hv
          · obtain rfl : v = v' := by simpa using hv
            exact hnew
        rw [if_pos rfl]
        cases hstored : (entries.foldl (fun m e => keep_max m e.1 e.2) ∅).lookup k with
        | none =>
            rw [hstored] at ih
            exact ⟨by simp [later], hbound v' (fun v hv => absurd hv (ih v)) (le_refl _)⟩
        | some stored =>
            rw [hstored] at ih
            simp only [later]
            split
            · next hlt =>
                exact ⟨by simp, hbound v' (fun v hv => (ih.2 v hv).trans hlt.le) (le_refl _)⟩
            · next hle =>
                exact ⟨List.mem_append_left _ ih.1, hbound stored ih.2 (not_lt.mp hle)⟩
      · rw [if_neg hk]
        have hmem : ∀ v, (k, v) ∈ entries ++ [(k', v')] ↔ (k, v) ∈ entries := by
          intro v
          simp [hk]
        simp only [hmem]
        exact ih

/-- Fold the entries of `other` into `m`, keeping the greater value per key. -/
def merge_max (m other : FMap K V) : FMap K V :=
  other.foldl (fun acc k v => keep_max acc k v)
    (fun d a₁ b₁ a₂ b₂ => keep_max_comm d a₁ a₂ b₁ b₂) m

/-- Merging is the pointwise maximum. -/
@[simp] theorem value_merge_max (m other : FMap K V) (k : K) :
    value (merge_max m other) k = max (value m k) (value other k) := by
  induction other using Finmap.induction_on with
  | H other =>
      obtain ⟨entries, hnodup⟩ := other
      change value (entries.foldl (fun acc (s : Sigma fun _ : K => V) =>
          keep_max acc s.1 s.2) m) k = max (value m k) (as_bot (entries.dlookup k))
      induction entries generalizing m with
      | nil => simp [as_bot]
      | cons s entries ih =>
          obtain ⟨a, b⟩ := s
          have hcons := List.nodupKeys_cons.mp hnodup
          rw [List.foldl_cons, ih _ hcons.2, value_keep_max]
          by_cases hk : k = a
          · subst hk
            have habs : entries.dlookup k = none := List.dlookup_eq_none.mpr hcons.1
            rw [if_pos rfl, habs, List.dlookup_cons_eq]
            simp [as_bot]
          · rw [if_neg hk, List.dlookup_cons_ne _ _ hk]

/-- A value kept before a merge is kept after it. -/
theorem merge_max_keep_max (m other : FMap K V) (k : K) (v : V) :
    merge_max m (keep_max other k v) = keep_max (merge_max m other) k v := by
  apply ext_value
  intro x
  simp only [value_merge_max, value_keep_max]
  split
  · next h => rw [h, max_assoc]
  · rfl

@[simp] theorem merge_max_empty (m : FMap K V) : merge_max m ∅ = m := by
  apply ext_value
  intro k
  rw [value_merge_max]
  simp [value, as_bot]

end KeepMax

/-! ## The greatest of a set, part by part -/

section Greatest

variable {V S : Type*} [LinearOrder V] [LinearOrder S]

/-- `o` is the greatest element of `s`, absent when `s` is empty. -/
structure GreatestOf (s : Set V) (o : Option V) : Prop where
  some : ∀ v, o = some v → IsGreatest s v
  none : o = none → s = ∅

theorem greatestOf_empty : GreatestOf (∅ : Set V) none := ⟨fun _ h => (by cases h), fun _ => rfl⟩

/-- One more element. -/
theorem GreatestOf.insert {s : Set V} {o : Option V} (h : GreatestOf s o) (c : V) :
    GreatestOf (insert c s) (Option.some (later o c)) := by
  refine ⟨?_, fun hnone => by cases hnone⟩
  rintro v hv
  obtain rfl := Option.some.inj hv
  cases o with
  | none =>
      rw [h.none rfl]
      exact ⟨Set.mem_insert _ _, by rintro v (rfl | hv); exacts [le_rfl, hv.elim]⟩
  | some current =>
      obtain ⟨hmem, hupper⟩ := h.some current rfl
      by_cases hlt : current < c
      · rw [later, if_pos hlt]
        refine ⟨Set.mem_insert _ _, ?_⟩
        rintro v (rfl | hv)
        · exact le_rfl
        · exact (hupper hv).trans hlt.le
      · rw [later, if_neg hlt]
        refine ⟨Set.mem_insert_of_mem _ hmem, ?_⟩
        rintro v (rfl | hv)
        · exact not_lt.mp hlt
        · exact hupper hv

variable {stamp : V → S} {s : Set V} {o o' : Option V} {r t' t : S}

/-- What a window has is greater than everything before it, and a window that has
nothing adds nothing. -/
theorem GreatestOf.window (hstamp : ∀ v w, stamp v < stamp w → v < w)
    (hwindow : GreatestOf {v ∈ s | r < stamp v ∧ stamp v ≤ t} o)
    (hbefore : GreatestOf {v ∈ s | stamp v ≤ t'} o') (hr : r ≤ t') (ht : t' ≤ t) :
    GreatestOf {v ∈ s | stamp v ≤ t} (o.or o') := by
  cases o with
  -- the greatest of the window is above everything before the window
  | some c =>
      obtain ⟨⟨hc, hrc, hct⟩, hupper⟩ := hwindow.some c rfl
      refine ⟨?_, fun h => by cases h⟩
      rintro v hv
      obtain rfl := Option.some.inj hv
      refine ⟨⟨hc, hct⟩, ?_⟩
      rintro w ⟨hw, hwt⟩
      by_cases hwr : r < stamp w
      · exact hupper ⟨hw, hwr, hwt⟩
      · exact (hstamp w c (lt_of_le_of_lt (not_lt.mp hwr) hrc)).le
  -- an empty window adds nothing
  | none =>
      have hsame : {v ∈ s | stamp v ≤ t} = {v ∈ s | stamp v ≤ t'} := by
        ext v
        constructor
        · rintro ⟨hv, hvt⟩
          refine ⟨hv, ?_⟩
          by_contra hlate
          have hempty := hwindow.none rfl
          have hin : v ∈ {v ∈ s | r < stamp v ∧ stamp v ≤ t} :=
            ⟨hv, lt_of_le_of_lt hr (not_le.mp hlate), hvt⟩
          rw [hempty] at hin
          exact hin
        · rintro ⟨hv, hvt⟩
          exact ⟨hv, hvt.trans ht⟩
      rw [hsame, Option.none_or]
      exact hbefore

end Greatest

/-! ## Summaries -/

/-- An accumulator of operations with a merge. -/
structure Summary (Op T : Type*) where
  zero : T
  step : T → Op → T
  merge : T → T → T
  step_comm : ∀ t a b, step (step t a) b = step (step t b) a
  merge_zero : ∀ t, merge t zero = t
  merge_step : ∀ s t a, merge s (step t a) = step (merge s t) a

namespace Summary

variable {Op T : Type*} (S : Summary Op T)

/-- The summary of a list of operations. -/
def of (ops : List Op) : T := ops.foldl S.step S.zero

/-- The summary of one more operation. -/
theorem of_concat (ops : List Op) (a : Op) : S.of (ops ++ [a]) = S.step (S.of ops) a := by
  simp [of, List.foldl_append]

/-- The order of the operations does not show. -/
theorem of_perm {ops ops' : List Op} (h : ops.Perm ops') : S.of ops = S.of ops' :=
  h.foldl_eq' (fun a _ b _ t => S.step_comm t a b) S.zero

/-- Merging the summary of a list in is running the list. -/
theorem merge_of (s : T) (ops : List Op) : S.merge s (S.of ops) = ops.foldl S.step s := by
  induction ops using List.reverseRecOn with
  | nil => exact S.merge_zero s
  | append_singleton ops a ih =>
      rw [of_concat, S.merge_step, ih, List.foldl_append]
      rfl

end Summary

end SnapshotEtl.Lib
