/-
Version-replacing tables: append-only lists of rows in which, per sorting key,
only the row of greatest version is visible, and among rows of one version the
last one appended.

A table is a `List` in insertion order and every operation of a writer is an
append, so each fact below is about `++`. Three of them carry the users of this
file: an appended batch shows exactly where nothing newer is stored
(`newest_append`), rows that later rows match leave no trace (`newest_replay`),
and when a version names one row the newest row is the visible one
(`newest_eq_some`), whatever the order of the writers.

Between the appends the server merges parts and drops rows that are superseded in
them. Which rows are left depends on the merges; which are visible does not
(`merged_merge_all`).
-/
import Mathlib.Data.List.Basic
import Mathlib.Data.List.Dedup
import Mathlib.Data.List.Induction
import Mathlib.Order.Lattice
import Mathlib.Tactic.Common

set_option autoImplicit false

namespace SnapshotEtl.Replacing

/-- How a replacing table reads its rows: the sorting key and the version. -/
structure Engine (R K V : Type*) where
  key : R → K
  version : R → V

variable {R K V : Type*} [DecidableEq K] [LinearOrder V] (e : Engine R K V)

/-! ## The visible row -/

/-- One step of the scan: a row replaces what was found unless that is strictly
newer, so of two rows of one version the later one stays. -/
def Engine.newer (best : Option R) (row : R) : Option R :=
  match best with
  | none => some row
  | some b => if e.version b ≤ e.version row then some row else some b

/-- The visible row of key `k`. -/
def Engine.newest (rows : List R) (k : K) : Option R :=
  (rows.filter fun r => e.key r = k).foldl e.newer none

/-- `r` is stored under `k` and nothing stored under `k` is newer. -/
structure Engine.IsNewest (rows : List R) (k : K) (r : R) : Prop where
  mem : r ∈ rows
  key_eq : e.key r = k
  le : ∀ s ∈ rows, e.key s = k → e.version s ≤ e.version r

@[simp] theorem newest_nil (k : K) : e.newest [] k = none := rfl

omit [DecidableEq K] in
theorem newer_ne_none (best : Option R) (row : R) : e.newer best row ≠ none := by
  cases best with
  | none => simp [Engine.newer]
  | some b => simp only [Engine.newer]; split <;> simp

/-- The newest row of a key after one more row. -/
theorem newest_concat (rows : List R) (r : R) (k : K) :
    e.newest (rows ++ [r]) k
      = if e.key r = k then e.newer (e.newest rows k) r else e.newest rows k := by
  by_cases h : e.key r = k <;>
    simp [Engine.newest, List.filter_append, List.foldl_append, h]

/-- No row is visible exactly when none is stored under the key. -/
theorem newest_eq_none {rows : List R} {k : K} :
    e.newest rows k = none ↔ ∀ r ∈ rows, e.key r ≠ k := by
  induction rows using List.reverseRecOn with
  | nil => simp
  | append_singleton rows x ih =>
      rw [newest_concat]
      by_cases hx : e.key x = k
      · rw [if_pos hx]
        refine ⟨fun h => absurd h (newer_ne_none e _ x), fun h => ?_⟩
        exact absurd hx (h x (by simp))
      · rw [if_neg hx, ih]
        simp [or_imp, forall_and, hx]

/-- What the scan finds is a row of the key with none newer before it and only older ones
behind it. -/
theorem split_of_newest {rows : List R} {k : K} {r : R} (h : e.newest rows k = some r) :
    ∃ before behind, rows = before ++ r :: behind ∧ e.key r = k ∧
      (∀ s ∈ before, e.key s = k → e.version s ≤ e.version r) ∧
      ∀ s ∈ behind, e.key s = k → e.version s < e.version r := by
  -- on the rows from the last one back, as the scan goes over them
  induction rows using List.reverseRecOn generalizing r with
  | nil => simp at h
  | append_singleton rows x ih =>
      rw [newest_concat] at h
      by_cases hx : e.key x = k
      · rw [if_pos hx] at h
        cases hb : e.newest rows k with
        | none =>
            rw [hb] at h
            obtain rfl : x = r := by simpa [Engine.newer] using h
            refine ⟨rows, [], rfl, hx, ?_, fun s hs => absurd hs List.not_mem_nil⟩
            intro s hs hk
            exact absurd hk ((newest_eq_none e).mp hb s hs)
        | some b =>
            obtain ⟨before, behind, hrows, hkey, hbefore, hbehind⟩ := ih hb
            rw [hb] at h
            simp only [Engine.newer] at h
            split at h
            · next hle =>
                obtain rfl : x = r := by simpa using h
                refine ⟨rows, [], rfl, hx, ?_, fun s hs => absurd hs List.not_mem_nil⟩
                intro s hs hk
                rw [hrows] at hs
                rcases List.mem_append.mp hs with hs | hs
                · exact (hbefore s hs hk).trans hle
                · rcases List.mem_cons.mp hs with rfl | hs
                  · exact hle
                  · exact (hbehind s hs hk).le.trans hle
            · next hlt =>
                obtain rfl : b = r := by simpa using h
                refine ⟨before, behind ++ [x], by simp [hrows], hkey, hbefore, ?_⟩
                intro s hs hk
                rcases List.mem_append.mp hs with hs | hs
                · exact hbehind s hs hk
                · rw [List.mem_singleton.mp hs]
                  exact not_le.mp hlt
      · rw [if_neg hx] at h
        obtain ⟨before, behind, hrows, hkey, hbefore, hbehind⟩ := ih h
        refine ⟨before, behind ++ [x], by simp [hrows], hkey, hbefore, ?_⟩
        intro s hs hk
        rcases List.mem_append.mp hs with hs | hs
        · exact hbehind s hs hk
        · rw [List.mem_singleton.mp hs] at hk
          exact absurd hk hx

/-- What the scan finds is stored under the key and nothing there is newer. -/
theorem newest_spec {rows : List R} {k : K} {r : R} (h : e.newest rows k = some r) :
    e.IsNewest rows k r := by
  obtain ⟨before, behind, rfl, hkey, hbefore, hbehind⟩ := split_of_newest e h
  refine ⟨List.mem_append_right _ List.mem_cons_self, hkey, ?_⟩
  intro s hs hk
  rcases List.mem_append.mp hs with hs | hs
  · exact hbefore s hs hk
  · rcases List.mem_cons.mp hs with rfl | hs
    · exact le_refl _
    · exact (hbehind s hs hk).le

/-- A stored key has a visible row. -/
theorem exists_newest {rows : List R} {r : R} (h : r ∈ rows) :
    ∃ s, e.newest rows (e.key r) = some s := by
  cases hn : e.newest rows (e.key r) with
  | none => exact absurd rfl ((newest_eq_none e).mp hn r h)
  | some s => exact ⟨s, rfl⟩

/-! ## Appending -/

/-- The newer of two scan results, the second one winning a tie. -/
def Engine.newerOf (a b : Option R) : Option R :=
  match b with
  | none => a
  | some r => e.newer a r

/-- Scanning an appended batch after the table is scanning both and keeping the
newer result, the batch winning a tie. -/
theorem newest_append (rows more : List R) (k : K) :
    e.newest (rows ++ more) k = e.newerOf (e.newest rows k) (e.newest more k) := by
  induction more using List.reverseRecOn with
  | nil => simp [Engine.newerOf]
  | append_singleton more x ih =>
      rw [← List.append_assoc, newest_concat, newest_concat, ih]
      by_cases hx : e.key x = k
      · simp only [if_pos hx]
        cases hm : e.newest more k with
        | none => simp [Engine.newerOf, Engine.newer]
        | some m =>
            cases hr : e.newest rows k with
            | none =>
                simp only [Engine.newerOf, Engine.newer]
                split <;> rfl
            | some b =>
                simp only [Engine.newerOf, Engine.newer]
                by_cases h₁ : e.version b ≤ e.version m <;>
                  by_cases h₂ : e.version m ≤ e.version x <;>
                    by_cases h₃ : e.version b ≤ e.version x <;> simp [h₁, h₂, h₃]
                · exact absurd (le_trans h₁ h₂) h₃
                · exact absurd (le_trans h₃ (le_of_lt (not_le.mp h₂))) h₁
      · simp only [if_neg hx]

/-- Rows of other keys are not looked at. -/
theorem newest_append_of_absent {rows more : List R} {k : K}
    (h : ∀ r ∈ more, e.key r ≠ k) : e.newest (rows ++ more) k = e.newest rows k := by
  rw [newest_append, (newest_eq_none e).mpr h]
  rfl

/-- A batch whose visible row is at least as new as anything stored shows. -/
theorem newest_append_of_newer {rows more : List R} {k : K} {r : R}
    (hm : e.newest more k = some r)
    (h : ∀ s ∈ rows, e.key s = k → e.version s ≤ e.version r) :
    e.newest (rows ++ more) k = some r := by
  rw [newest_append, hm]
  cases hr : e.newest rows k with
  | none => rfl
  | some b =>
      have hb := newest_spec e hr
      simp [Engine.newerOf, Engine.newer, h b hb.mem hb.key_eq]

/-- Over a batch that has rows of the key, none of them older than a stored one, what shows
is of the batch. -/
theorem mem_of_newest_append {rows more : List R} {k : K} {r : R}
    (h : e.newest (rows ++ more) k = some r) (hmore : ∃ s ∈ more, e.key s = k)
    (hle : ∀ s ∈ more, e.key s = k → ∀ t ∈ rows, e.key t = k → e.version t ≤ e.version s) :
    r ∈ more := by
  obtain ⟨s, hs, hkey⟩ := hmore
  obtain ⟨m, hm⟩ := exists_newest e hs
  rw [hkey] at hm
  have hmn := newest_spec e hm
  rw [newest_append_of_newer e hm (hle m hmn.mem hmn.key_eq)] at h
  obtain rfl := Option.some.inj h
  exact hmn.mem

/-- A batch all of whose rows are strictly older than a stored one is hidden. -/
theorem newest_append_of_older {rows more : List R} {k : K} {r : R}
    (hr : e.newest rows k = some r)
    (h : ∀ s ∈ more, e.key s = k → e.version s < e.version r) :
    e.newest (rows ++ more) k = some r := by
  rw [newest_append, hr]
  cases hm : e.newest more k with
  | none => rfl
  | some m =>
      have hn := newest_spec e hm
      simp [Engine.newerOf, Engine.newer, not_le.mpr (h m hn.mem hn.key_eq)]

/-- **Replay.** Rows that are each matched by a later row of their key, at least
as new, leave no trace: writing part of a batch and then the whole batch is
writing the batch. -/
theorem newest_replay {rows part more : List R} {k : K}
    (h : ∀ r ∈ part, ∃ s ∈ more, e.key s = e.key r ∧ e.version r ≤ e.version s) :
    e.newest (rows ++ part ++ more) k = e.newest (rows ++ more) k := by
  rw [newest_append, newest_append, newest_append]
  cases hp : e.newest part k with
  | none => rfl
  | some p =>
      have hps := newest_spec e hp
      obtain ⟨s, hs, hsk, hsv⟩ := h p hps.mem
      have hsk' : e.key s = k := hsk.trans hps.key_eq
      obtain ⟨m, hm⟩ := exists_newest e hs
      rw [hsk'] at hm
      have hpm : e.version p ≤ e.version m :=
        le_trans hsv ((newest_spec e hm).le s hs hsk')
      rw [hm]
      cases hr : e.newest rows k with
      | none => simp [Engine.newerOf, Engine.newer, hpm]
      | some b =>
          by_cases hbp : e.version b ≤ e.version p
          · simp [Engine.newerOf, Engine.newer, hbp, hpm, le_trans hbp hpm]
          · simp [Engine.newerOf, Engine.newer, hbp]

/-- Rows of other keys in the middle are not looked at. -/
theorem newest_append_of_absent_middle {rows middle more : List R} {k : K}
    (h : ∀ r ∈ middle, e.key r ≠ k) :
    e.newest (rows ++ middle ++ more) k = e.newest (rows ++ more) k := by
  rw [newest_append, newest_append_of_absent e h, ← newest_append]

/-- A row that every other one of its key is older than is visible. -/
theorem newest_of_lt {rows : List R} {k : K} {r : R} (hmem : r ∈ rows) (hkey : e.key r = k)
    (h : ∀ s ∈ rows, e.key s = k → s = r ∨ e.version s < e.version r) :
    e.newest rows k = some r := by
  obtain ⟨s, hs⟩ := exists_newest e hmem
  rw [hkey] at hs
  have hsn := newest_spec e hs
  rcases h s hsn.mem hsn.key_eq with rfl | hlt
  · exact hs
  · exact absurd (hsn.le r hmem hkey) (not_le.mpr hlt)

/-- A row with none newer before it and only older ones behind it is visible. -/
theorem newest_of_split {before behind : List R} {k : K} {r : R} (hkey : e.key r = k)
    (hbefore : ∀ s ∈ before, e.key s = k → e.version s ≤ e.version r)
    (hbehind : ∀ s ∈ behind, e.key s = k → e.version s < e.version r) :
    e.newest (before ++ r :: behind) k = some r := by
  have hself : e.newest [r] k = some r := by simp [Engine.newest, Engine.newer, hkey]
  rw [List.append_cons]
  exact newest_append_of_older e (newest_append_of_newer e hself hbefore) hbehind

/-- A visible row stays visible when others are left out. -/
theorem newest_filter {rows : List R} {k : K} {r : R} (q : R → Bool)
    (h : e.newest rows k = some r) (hq : q r = true) : e.newest (rows.filter q) k = some r := by
  obtain ⟨before, behind, rfl, hkey, hbefore, hbehind⟩ := split_of_newest e h
  rw [List.filter_append, List.filter_cons_of_pos hq]
  refine newest_of_split e hkey ?_ ?_
  · intro s hs
    exact hbefore s (List.mem_of_mem_filter hs)
  · intro s hs
    exact hbehind s (List.mem_of_mem_filter hs)

/-! ## All visible rows -/

/-- What the table shows: the visible row of each of its keys. -/
def Engine.visible (rows : List R) : List R := (rows.map e.key).dedup.filterMap (e.newest rows)

/-- FINAL shows a row exactly where it is the newest of its key. -/
theorem mem_visible {rows : List R} {r : R} :
    r ∈ e.visible rows ↔ e.newest rows (e.key r) = some r := by
  rw [Engine.visible, List.mem_filterMap]
  constructor
  · rintro ⟨k, -, hr⟩
    rwa [(newest_spec e hr).key_eq]
  · intro hr
    refine ⟨e.key r, ?_, hr⟩
    rw [List.mem_dedup]
    exact List.mem_map_of_mem (newest_spec e hr).mem

/-! ## Tables in which a version names one row -/

/-- Two rows of one key and one version are the same row. -/
def Engine.OneRow (rows : List R) : Prop :=
  ∀ r ∈ rows, ∀ s ∈ rows, e.key r = e.key s → e.version r = e.version s → r = s

omit [DecidableEq K] [LinearOrder V] in
/-- Fewer rows are still told apart by key and version. -/
theorem Engine.OneRow.subset {e : Engine R K V} {rows sub : List R} (h : e.OneRow rows)
    (hs : ∀ r ∈ sub, r ∈ rows) : e.OneRow sub :=
  fun r hr s hsm => h r (hs r hr) s (hs s hsm)

/-- Under `OneRow` there is one newest row, and the scan finds it. -/
theorem newest_eq_some {rows : List R} (hone : e.OneRow rows) {k : K} {r : R} :
    e.newest rows k = some r ↔ e.IsNewest rows k r := by
  refine ⟨newest_spec e, fun h => ?_⟩
  obtain ⟨s, hs⟩ := exists_newest e h.mem
  rw [h.key_eq] at hs
  have hsn := newest_spec e hs
  have hv : e.version s = e.version r :=
    le_antisymm (h.le s hsn.mem hsn.key_eq) (hsn.le r h.mem h.key_eq)
  rw [hs, hone s hsn.mem r h.mem (hsn.key_eq.trans h.key_eq.symm) hv]

/-! ## Merges -/

/-- One row joins those merged before it: it takes the place of the row of its key, unless
that one is strictly newer. -/
def Engine.absorb (merged : List R) (row : R) : List R :=
  if merged.any fun s => e.key s = e.key row && e.version row < e.version s then merged
  else (merged.filter fun s => e.key s ≠ e.key row) ++ [row]

/-- The rows of some parts as one part: of each key the newest, and of those the last. -/
def Engine.collapse (rows : List R) : List R := rows.foldl e.absorb []

/-- A merge of adjacent parts, by the rows they hold: `count` of them from `start` on. -/
structure Merge where
  start : ℕ
  count : ℕ
deriving DecidableEq

def Engine.merge (rows : List R) (m : Merge) : List R :=
  rows.take m.start ++ e.collapse ((rows.drop m.start).take m.count)
    ++ (rows.drop m.start).drop m.count

/-- One merge after the other. -/
def Engine.merge_all (rows : List R) (merges : List Merge) : List R := merges.foldl e.merge rows

/-- Rows of which some that nobody can see were left out. -/
structure Engine.Merged (rows merged : List R) : Prop where
  sublist : merged.Sublist rows
  newest : ∀ k, e.newest merged k = e.newest rows k

variable {e}

theorem Engine.Merged.refl (rows : List R) : e.Merged rows rows :=
  ⟨List.Sublist.refl rows, fun _ => rfl⟩

/-- Merges compose. -/
theorem Engine.Merged.trans {rows merged merged' : List R} (h : e.Merged rows merged)
    (h' : e.Merged merged merged') : e.Merged rows merged' :=
  ⟨h'.sublist.trans h.sublist, fun k => (h'.newest k).trans (h.newest k)⟩

/-- Parts next to each other are merged each on its own. -/
theorem Engine.Merged.append {rows merged more more' : List R} (h : e.Merged rows merged)
    (h' : e.Merged more more') : e.Merged (rows ++ more) (merged ++ more') := by
  refine ⟨h.sublist.append h'.sublist, fun k => ?_⟩
  rw [newest_append, newest_append, h.newest, h'.newest]

variable (e)

/-- Rows of other keys can be left out. -/
theorem newest_filter_of_keeps {rows : List R} {k : K} {q : R → Bool}
    (h : ∀ r ∈ rows, e.key r = k → q r = true) : e.newest (rows.filter q) k = e.newest rows k := by
  have hsame : (rows.filter q).filter (fun r => e.key r = k)
      = rows.filter fun r => e.key r = k := by
    rw [List.filter_filter]
    refine List.filter_congr fun r hr => ?_
    by_cases hkey : e.key r = k
    · simp [hkey, h r hr hkey]
    · simp [hkey]
  rw [Engine.newest, Engine.newest, hsame]

/-- Taking in one row is a merge. -/
theorem merged_absorb (rows : List R) (row : R) :
    e.Merged (rows ++ [row]) (e.absorb rows row) := by
  unfold Engine.absorb
  split
  · next hnewer =>
      -- the row is superseded by one before it
      simp only [List.any_eq_true, Bool.and_eq_true, decide_eq_true_eq] at hnewer
      obtain ⟨s, hs, hkey, hlt⟩ := hnewer
      refine ⟨List.sublist_append_left rows [row], fun k => ?_⟩
      rw [newest_concat]
      split
      · next hk =>
          obtain ⟨b, hb⟩ := exists_newest e hs
          rw [hkey, hk] at hb
          have hle := (newest_spec e hb).le s hs (hkey.trans hk)
          rw [hb, Engine.newer, if_neg (not_le.mpr (lt_of_lt_of_le hlt hle))]
      · rfl
  · next hnewer =>
      -- the row supersedes those of its key
      have hle : ∀ s ∈ rows, e.key s = e.key row → e.version s ≤ e.version row := by
        intro s hs hkey
        by_contra hlt
        refine hnewer (List.any_eq_true.mpr ⟨s, hs, ?_⟩)
        simpa [hkey] using not_le.mp hlt
      refine ⟨(List.filter_sublist).append (List.Sublist.refl [row]), fun k => ?_⟩
      rw [newest_concat, newest_concat]
      split
      · next hk =>
          have hnone : e.newest (rows.filter fun s => e.key s ≠ e.key row) k = none := by
            rw [newest_eq_none]
            intro s hs hsk
            have hne := (List.mem_filter.mp hs).2
            simp only [ne_eq, decide_not, Bool.not_eq_true', decide_eq_false_iff_not] at hne
            exact hne (hsk.trans hk.symm)
          rw [hnone]
          cases hb : e.newest rows k with
          | none => rfl
          | some b =>
              have hspec := newest_spec e hb
              rw [Engine.newer, Engine.newer,
                if_pos (hle b hspec.mem (hspec.key_eq.trans hk.symm))]
      · next hk =>
          refine newest_filter_of_keeps e fun s _ hsk => ?_
          simpa [hsk] using Ne.symm hk

/-- Putting parts together hides nothing and shows nothing. -/
theorem merged_collapse (rows : List R) : e.Merged rows (e.collapse rows) := by
  induction rows using List.reverseRecOn with
  | nil => exact Engine.Merged.refl []
  | append_singleton rows row ih =>
      have hlast : e.collapse (rows ++ [row]) = e.absorb (e.collapse rows) row := by
        simp [Engine.collapse, List.foldl_append]
      rw [hlast]
      exact (ih.append (Engine.Merged.refl [row])).trans (merged_absorb e _ row)

/-- A merge drops superseded rows only. -/
theorem merged_merge (rows : List R) (m : Merge) : e.Merged rows (e.merge rows m) := by
  have hparts : rows.take m.start ++ (rows.drop m.start).take m.count
      ++ (rows.drop m.start).drop m.count = rows := by
    rw [List.append_assoc, List.take_append_drop, List.take_append_drop]
  have h : e.Merged (rows.take m.start ++ (rows.drop m.start).take m.count
      ++ (rows.drop m.start).drop m.count) (e.merge rows m) :=
    ((Engine.Merged.refl _).append (merged_collapse e _)).append (Engine.Merged.refl _)
  rwa [hparts] at h

/-- **Merges do not show**: whatever is merged, every key has the visible row it had. -/
theorem merged_merge_all (rows : List R) (merges : List Merge) :
    e.Merged rows (e.merge_all rows merges) := by
  induction merges generalizing rows with
  | nil => exact Engine.Merged.refl rows
  | cons m merges ih => exact (merged_merge e rows m).trans (ih (e.merge rows m))

end SnapshotEtl.Replacing
