/-
Which incremental archives a watermark is taken through.

The watcher applies the archive that ends at the highest slot among those that
continue from its watermark, and asks again from there. An archive is a jump from
any slot between its base and its end, so this is a greedy walk, and it ends at the
highest slot that any choice of archives leads to.
-/
import SnapshotEtl.Journal
import SnapshotEtl.Lib.Jumps
import Mathlib.Data.String.Basic

set_option autoImplicit false

namespace SnapshotEtl

open Lib

/-! ## The listing -/

section Listing

variable (new_from_path : String → Option (Slot × Slot))

/-- `new_from_path` reads the base slot and the slot out of a file name. -/
def IncrementalSnapshot.from_path (path : String) : Option IncrementalSnapshot :=
  if ".tar.zst".toList.isSuffixOf path.toList then
    (new_from_path path).map fun info => ⟨path, info.1, info.2⟩
  else
    none

/-- `discover`, from the paths of the files in the directory. -/
def discover (paths : List String) : List IncrementalSnapshot :=
  paths.filterMap (IncrementalSnapshot.from_path new_from_path)

variable {new_from_path}

theorem IncrementalSnapshot.path_of_from_path {path : String} {snapshot : IncrementalSnapshot}
    (h : from_path new_from_path path = some snapshot) : snapshot.path = path := by
  unfold from_path at h
  split at h
  · obtain ⟨info, -, rfl⟩ := Option.map_eq_some_iff.mp h
    rfl
  · cases h

/-- A path names one archive. -/
theorem eq_of_path_eq {paths : List String} {a b : IncrementalSnapshot}
    (ha : a ∈ discover new_from_path paths) (hb : b ∈ discover new_from_path paths)
    (h : a.path = b.path) : a = b := by
  obtain ⟨path, -, hpath⟩ := List.mem_filterMap.mp ha
  obtain ⟨path', -, hpath'⟩ := List.mem_filterMap.mp hb
  obtain rfl : path = path' := by
    rw [← IncrementalSnapshot.path_of_from_path hpath,
      ← IncrementalSnapshot.path_of_from_path hpath', h]
  exact Option.some.inj (hpath.symm.trans hpath')

end Listing

/-! ## The preferred archive -/

section Preferred

variable {α : Type} {slot : α → Slot} {path : α → String} {a b c : α}

/-- The preferred of two: the newer one, and of two of one slot the one with the smaller
path. -/
theorem preferred_iff : preferred slot path a b = true ↔
    slot b < slot a ∨ (slot a = slot b ∧ path a ≤ path b) := by
  simp [preferred]

/-- The preference is transitive. -/
theorem preferred_trans (hab : preferred slot path a b = true)
    (hbc : preferred slot path b c = true) : preferred slot path a c = true := by
  rw [preferred_iff] at *
  rcases hab with hab | ⟨hab, hle⟩ <;> rcases hbc with hbc | ⟨hbc, hle'⟩
  · exact .inl (hbc.trans hab)
  · exact .inl (hbc ▸ hab)
  · exact .inl (hab ▸ hbc)
  · exact .inr ⟨hab.trans hbc, hle.trans hle'⟩

/-- Of any two, one is preferred. -/
theorem preferred_total (a b : α) :
    (preferred slot path a b || preferred slot path b a) = true := by
  rw [Bool.or_eq_true, preferred_iff, preferred_iff]
  rcases lt_trichotomy (slot a) (slot b) with h | h | h
  · exact .inr (.inl h)
  · rcases le_total (path a) (path b) with hle | hle
    · exact .inl (.inr ⟨h, hle⟩)
    · exact .inr (.inr ⟨h.symm, hle⟩)
  · exact .inl (.inl h)

/-- Two archives preferred to each other have one path. -/
theorem path_eq_of_preferred (hab : preferred slot path a b = true)
    (hba : preferred slot path b a = true) : path a = path b := by
  rw [preferred_iff] at *
  rcases hab with hab | ⟨hab, hle⟩ <;> rcases hba with hba | ⟨hba, hle'⟩
  · exact absurd hab hba.not_gt
  · exact absurd hba hab.ne
  · exact absurd hab hba.ne
  · exact le_antisymm hle hle'

end Preferred

theorem pairwise_eligible_candidates (snapshots : List IncrementalSnapshot) (slot : Slot) :
    (eligible_candidates snapshots slot).Pairwise fun a b =>
      preferred IncrementalSnapshot.slot IncrementalSnapshot.path a b = true :=
  List.pairwise_mergeSort (fun _ _ _ => preferred_trans) preferred_total _

/-- **The order of a listing is of no account**, where a path names one archive. -/
theorem eligible_candidates_perm {snapshots listing : List IncrementalSnapshot}
    (hperm : listing.Perm snapshots)
    (hpath : ∀ a ∈ snapshots, ∀ b ∈ snapshots, a.path = b.path → a = b) (slot : Slot) :
    eligible_candidates listing slot = eligible_candidates snapshots slot := by
  refine List.Perm.eq_of_pairwise (fun a b ha hb hab hba => ?_)
    (pairwise_eligible_candidates _ _) (pairwise_eligible_candidates _ _) ?_
  · exact hpath a (hperm.subset (mem_eligible_candidates.mp ha).1) b
      (mem_eligible_candidates.mp hb).1 (path_eq_of_preferred hab hba)
  · exact ((List.mergeSort_perm _ _).trans (hperm.filter _)).trans (List.mergeSort_perm _ _).symm

/-- Where none is chosen, none is open. -/
theorem newest_eligible_incremental_none {snapshots : List IncrementalSnapshot} {slot : Slot}
    (h : newest_eligible_incremental snapshots slot = none) :
    ∀ snapshot ∈ snapshots, ¬ Jumps.Open IncrementalSnapshot.base_slot IncrementalSnapshot.slot
      slot snapshot := by
  intro snapshot hmem hopen
  have hnil := List.head?_eq_none_iff.mp h
  have hcandidate := mem_eligible_candidates.mpr ⟨hmem, hopen⟩
  rw [hnil] at hcandidate
  cases hcandidate

/-- The chosen archive ends at the highest slot of all that continue. -/
theorem newest_eligible_incremental_furthest {snapshots : List IncrementalSnapshot} {slot : Slot}
    {snapshot : IncrementalSnapshot}
    (h : newest_eligible_incremental snapshots slot = some snapshot) :
    Jumps.Furthest IncrementalSnapshot.base_slot IncrementalSnapshot.slot {s | s ∈ snapshots} slot
      snapshot := by
  obtain ⟨hmem, hopen⟩ := newest_eligible_incremental_spec h
  refine ⟨hmem, hopen, fun other hother hopen' => ?_⟩
  have hcandidate := mem_eligible_candidates.mpr ⟨hother, hopen'⟩
  have hsorted := pairwise_eligible_candidates snapshots slot
  obtain ⟨rest, hrest⟩ := List.head?_eq_some_iff.mp h
  rw [hrest] at hcandidate hsorted
  rcases List.mem_cons.mp hcandidate with rfl | hlater
  · exact le_rfl
  · rcases preferred_iff.mp ((List.pairwise_cons.mp hsorted).1 other hlater) with hlt | ⟨heq, -⟩
    · exact hlt.le
    · exact heq.ge

/-! ## One archive after another -/

/-- The archives that a watermark can still be taken through. -/
def ahead (snapshots : List IncrementalSnapshot) (slot : Slot) : Finset IncrementalSnapshot :=
  snapshots.toFinset.filter (slot < ·.slot)

/-- Each choice leaves fewer archives ahead. -/
theorem ahead_ssubset {snapshots : List IncrementalSnapshot} {slot : Slot}
    {snapshot : IncrementalSnapshot}
    (h : newest_eligible_incremental snapshots slot = some snapshot) :
    ahead snapshots snapshot.slot ⊂ ahead snapshots slot := by
  obtain ⟨hmem, -, hlt⟩ := newest_eligible_incremental_spec h
  refine Finset.ssubset_iff_of_subset (fun other hother => ?_) |>.mpr ⟨snapshot, ?_, ?_⟩
  · rw [ahead, Finset.mem_filter] at hother ⊢
    exact ⟨hother.1, hlt.trans hother.2⟩
  · rw [ahead, Finset.mem_filter, List.mem_toFinset]
    exact ⟨hmem, hlt⟩
  · rw [ahead, Finset.mem_filter]
    exact fun hself => lt_irrefl _ hself.2

/-- The archives taken from `slot` on, each from the slot of the one before it, until
there is none. -/
def select_all (snapshots : List IncrementalSnapshot) (slot : Slot) : List IncrementalSnapshot :=
  match h : newest_eligible_incremental snapshots slot with
  | none => []
  | some snapshot =>
      have : (ahead snapshots snapshot.slot).card < (ahead snapshots slot).card :=
        Finset.card_lt_card (ahead_ssubset h)
      snapshot :: select_all snapshots snapshot.slot
termination_by (ahead snapshots slot).card

/-- The slot they end at. -/
def selected_slot (snapshots : List IncrementalSnapshot) (slot : Slot) : Slot :=
  Jumps.final IncrementalSnapshot.slot slot (select_all snapshots slot)

/-- Where none is chosen, the selection ends. -/
theorem select_all_none {snapshots : List IncrementalSnapshot} {slot : Slot}
    (h : newest_eligible_incremental snapshots slot = none) : select_all snapshots slot = [] := by
  rw [select_all]
  split
  · rfl
  · rename_i hsome
    rw [h] at hsome
    cases hsome

/-- Where one is chosen, the selection goes on from its slot. -/
theorem select_all_some {snapshots : List IncrementalSnapshot} {slot : Slot}
    {snapshot : IncrementalSnapshot}
    (h : newest_eligible_incremental snapshots slot = some snapshot) :
    select_all snapshots slot = snapshot :: select_all snapshots snapshot.slot := by
  rw [select_all]
  split
  · rename_i hnone
    rw [h] at hnone
    cases hnone
  · rename_i other hsome
    obtain rfl := Option.some.inj (h.symm.trans hsome)
    rfl

/-- A fact about all that is selected, by the choices that make it up. -/
theorem select_all_induction {snapshots : List IncrementalSnapshot}
    {P : Slot → List IncrementalSnapshot → Prop}
    (none : ∀ slot, newest_eligible_incremental snapshots slot = none → P slot [])
    (some : ∀ slot snapshot, newest_eligible_incremental snapshots slot = some snapshot →
      P snapshot.slot (select_all snapshots snapshot.slot) →
      P slot (snapshot :: select_all snapshots snapshot.slot)) (slot : Slot) :
    P slot (select_all snapshots slot) := by
  induction hcard : (ahead snapshots slot).card using Nat.strongRecOn generalizing slot with
  | ind n ih =>
      cases h : newest_eligible_incremental snapshots slot with
      | none =>
          rw [select_all_none h]
          exact none slot h
      | some snapshot =>
          rw [select_all_some h]
          exact some slot snapshot h
            (ih _ (hcard ▸ Finset.card_lt_card (ahead_ssubset h)) _ rfl)

/-- **The selection is a greedy walk.** -/
theorem greedy_select_all (snapshots : List IncrementalSnapshot) (slot : Slot) :
    Jumps.Greedy IncrementalSnapshot.base_slot IncrementalSnapshot.slot {s | s ∈ snapshots} slot
      (select_all snapshots slot) :=
  select_all_induction (fun _ h => .stop (newest_eligible_incremental_none h))
    (fun _ _ h rest => .jump (newest_eligible_incremental_furthest h) rest) slot

/-- At the slot that the selection reaches, none is open. -/
theorem newest_eligible_incremental_selected_slot (snapshots : List IncrementalSnapshot)
    (slot : Slot) :
    newest_eligible_incremental snapshots (selected_slot snapshots slot) = none :=
  select_all_induction (P := fun slot selected =>
    newest_eligible_incremental snapshots (Jumps.final IncrementalSnapshot.slot slot selected)
      = none) (fun _ h => h) (fun _ _ _ rest => rest) slot

/-- The order of the listing does not matter, as long as paths tell the archives apart. -/
theorem select_all_perm {snapshots listing : List IncrementalSnapshot}
    (hperm : listing.Perm snapshots)
    (hpath : ∀ a ∈ snapshots, ∀ b ∈ snapshots, a.path = b.path → a = b) (slot : Slot) :
    select_all listing slot = select_all snapshots slot := by
  have hsame : ∀ slot, newest_eligible_incremental listing slot
      = newest_eligible_incremental snapshots slot := by
    intro slot
    rw [newest_eligible_incremental, newest_eligible_incremental,
      eligible_candidates_perm hperm hpath]
  refine select_all_induction (P := fun slot selected => select_all listing slot = selected)
    (fun slot h => ?_) (fun slot snapshot h rest => ?_) slot
  · exact select_all_none ((hsame slot).trans h)
  · rw [select_all_some ((hsame slot).trans h), rest]

/-! ## Its optimality -/

/-- **Greedy selection is optimal.** From any listing and any slot it comes to an end,
takes no archive twice, does not depend on the order of the files, and ends at the
highest slot that any sequence of archives leads to. -/
theorem greedy_selection_optimal (new_from_path : String → Option (Slot × Slot))
    (paths : List String) (slot : Slot) :
    newest_eligible_incremental (discover new_from_path paths)
        (selected_slot (discover new_from_path paths) slot) = none ∧
      (select_all (discover new_from_path paths) slot).Nodup ∧
      (∀ listing : List String, listing.Perm paths →
        select_all (discover new_from_path listing) slot
          = select_all (discover new_from_path paths) slot) ∧
      IsGreatest {reached | Jumps.Reaches IncrementalSnapshot.base_slot IncrementalSnapshot.slot
          {s | s ∈ discover new_from_path paths} slot reached}
        (selected_slot (discover new_from_path paths) slot) := by
  have hgreedy := greedy_select_all (discover new_from_path paths) slot
  refine ⟨newest_eligible_incremental_selected_slot _ _, hgreedy.walk.nodup,
    fun listing hperm => ?_, hgreedy.isGreatest_final⟩
  exact select_all_perm (hperm.filterMap _) (fun a ha b hb => eq_of_path_eq ha hb) slot

end SnapshotEtl
