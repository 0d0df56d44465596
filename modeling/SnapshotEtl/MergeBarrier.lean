/-
The barrier after a full import: `wait_for_group_merges_to_settle`.

The tables of a group are probed one after the other, and the wait is over when a complete
probe finds as many active parts in every table as the complete probe before it; a probe
that fails is made again. Merges go on beside it. Nothing is inserted while it lasts, and
a merge leaves one part for at least two: so equal numbers at both ends of a window mean
that nothing was merged in between, and numbers that differ have become smaller, which
they can only do as often as there are parts.
-/
import SnapshotEtl.DerivedRebuild
import Mathlib.Algebra.Order.BigOperators.Group.List

set_option autoImplicit false

namespace SnapshotEtl.MergeBarrier

open Lib DerivedRebuild

/-- In seconds, as are all the times below. -/
def RAW_MERGE_STABILITY_WINDOW : ℕ := 2 * 60
def RAW_MERGE_PROBE_RETRY_INTERVAL : ℕ := 10

/-! ## Parts -/

/-- An active part of a table. -/
structure Part where
  partition : String
  rows : ℕ
  bytes_on_disk : ℕ
deriving DecidableEq, Repr

structure RawMergePartCount where
  partition : String
  parts_count : ℕ
  total_rows : ℕ
  total_size : String
deriving DecidableEq, Repr

/-- The rows of the query of `raw_merge_part_counts`, up to their order. -/
def raw_merge_part_counts (formatReadableSize : ℕ → String) (parts : List Part) :
    List RawMergePartCount :=
  (parts.map Part.partition).dedup.map fun partition =>
    let of_partition := parts.filter fun part => part.partition = partition
    { partition
      parts_count := of_partition.length
      total_rows := (of_partition.map Part.rows).sum
      total_size := formatReadableSize (of_partition.map Part.bytes_on_disk).sum }

def raw_merge_part_total (parts : List RawMergePartCount) : ℕ :=
  (parts.map RawMergePartCount.parts_count).sum

/-- The total is the number of active parts, of whatever partitions. -/
theorem total_of_counts {formatReadableSize : ℕ → String} {parts : List Part}
    {rows : List RawMergePartCount}
    (h : rows.Perm (raw_merge_part_counts formatReadableSize parts)) :
    raw_merge_part_total rows = parts.length := by
  have hsum := (h.map RawMergePartCount.parts_count).sum_eq
  have hlength := List.sum_map_count_dedup_eq_length (parts.map Part.partition)
  rw [raw_merge_part_total, hsum, raw_merge_part_counts, List.map_map]
  rw [List.length_map] at hlength
  rw [← hlength]
  congr 1
  refine List.map_congr_left fun partition _ => ?_
  rw [List.count, List.countP_map, List.countP_eq_length_filter]
  rfl

/-! ## The system -/

/-- Where the wait is: before the tables that this probe has still to read, asleep, or
back at its caller. -/
inductive Waiting
  | probing (part_totals : List ℕ) (tables : List String)
  | sleeping (until_time : ℕ)
  | settled
deriving DecidableEq, Repr

/-- A successful read of a table: when, what it found, and the merges there were by then. -/
structure Reading where
  at_time : ℕ
  total : ℕ
  merged : ℕ
deriving DecidableEq, Repr

/-- `before` and `current` are a history: the readings of the last complete probe that was
not the last of the wait, and those of the probe under way. -/
structure System where
  now : ℕ
  active : String → List Part
  merged : String → ℕ
  waiting : Waiting
  previous_part_totals : Option (List ℕ)
  before : String → Reading
  current : String → Reading

inductive Label
  | tick (seconds : ℕ)
  | merge (table : String) (parts : List Part) (into : Part)
  | read (rows : List RawMergePartCount)
  | read_failed
  | compare
  | wake

def tables (group : TableGroup) : List String := GROUP_MERGE_TABLES.map group.table

def start (group : TableGroup) (now : ℕ) (active : String → List Part) : System where
  now
  active
  merged _ := 0
  waiting := .probing [] (tables group)
  previous_part_totals := none
  before _ := ⟨0, 0, 0⟩
  current _ := ⟨0, 0, 0⟩

namespace System

variable (formatReadableSize : ℕ → String) (group : TableGroup)

/-- The merge of some parts of a table, which are of one partition. -/
def merge (s : System) (table : String) (parts : List Part) (into : Part) : System :=
  { s with
    active := Function.update s.active table (into :: (s.active table).diff parts)
    merged := Function.update s.merged table (s.merged table + 1) }

/-- The next table has been read. -/
def reading (s : System) (part_totals : List ℕ) (table : String) (rest : List String)
    (rows : List RawMergePartCount) : System :=
  { s with
    waiting := .probing (part_totals ++ [raw_merge_part_total rows]) rest
    current := Function.update s.current table
      ⟨s.now, (s.active table).length, s.merged table⟩ }

def step (s : System) : Label → Option System
  | .tick seconds => some { s with now := s.now + seconds }
  | .merge table parts into =>
      if 2 ≤ parts.length ∧ (∀ part ∈ parts, part.partition = into.partition) ∧
          parts.Subperm (s.active table) then
        some (s.merge table parts into)
      else none
  | .read rows =>
      match s.waiting with
      | .probing part_totals (table :: rest) =>
          if rows.Perm (raw_merge_part_counts formatReadableSize (s.active table)) then
            some (s.reading part_totals table rest rows)
          else none
      | _ => none
  | .read_failed =>
      match s.waiting with
      | .probing _ (_ :: _) =>
          some { s with waiting := .sleeping (s.now + RAW_MERGE_PROBE_RETRY_INTERVAL) }
      | _ => none
  | .compare =>
      match s.waiting with
      | .probing part_totals [] =>
          if s.previous_part_totals = some part_totals then some { s with waiting := .settled }
          else some { s with
            waiting := .sleeping (s.now + RAW_MERGE_STABILITY_WINDOW)
            previous_part_totals := some part_totals
            before := s.current }
      | _ => none
  | .wake =>
      match s.waiting with
      | .sleeping until_time =>
          if until_time ≤ s.now then some { s with waiting := .probing [] (tables group) } else none
      | _ => none

end System

/-! ## What a step can do -/

section Steps

variable {formatReadableSize : ℕ → String} {group : TableGroup} {s s' : System}

inductive Step (group : TableGroup) (s : System) : Label → System → Prop
  | tick (seconds : ℕ) : Step group s (.tick seconds) { s with now := s.now + seconds }
  | merge (table : String) (parts : List Part) (into : Part) (hlength : 2 ≤ parts.length)
      (hparts : parts.Subperm (s.active table)) :
      Step group s (.merge table parts into) (s.merge table parts into)
  | read (part_totals : List ℕ) (table : String) (rest : List String)
      (rows : List RawMergePartCount) (hwaiting : s.waiting = .probing part_totals (table :: rest))
      (htotal : raw_merge_part_total rows = (s.active table).length) :
      Step group s (.read rows) (s.reading part_totals table rest rows)
  | read_failed (part_totals : List ℕ) (table : String) (rest : List String)
      (hwaiting : s.waiting = .probing part_totals (table :: rest)) :
      Step group s .read_failed
        { s with waiting := .sleeping (s.now + RAW_MERGE_PROBE_RETRY_INTERVAL) }
  | settle (part_totals : List ℕ) (hwaiting : s.waiting = .probing part_totals [])
      (hsame : s.previous_part_totals = some part_totals) :
      Step group s .compare { s with waiting := .settled }
  | again (part_totals : List ℕ) (hwaiting : s.waiting = .probing part_totals [])
      (hdiffer : s.previous_part_totals ≠ some part_totals) :
      Step group s .compare { s with
        waiting := .sleeping (s.now + RAW_MERGE_STABILITY_WINDOW)
        previous_part_totals := some part_totals
        before := s.current }
  | wake (until_time : ℕ) (hwaiting : s.waiting = .sleeping until_time)
      (hslept : until_time ≤ s.now) :
      Step group s .wake { s with waiting := .probing [] (tables group) }

/-- A step of the system is one of the steps of the barrier, the clock or a merge. -/
theorem step_cases {l : Label} (h : s.step formatReadableSize group l = some s') :
    Step group s l s' := by
  cases l with
  | tick seconds =>
      obtain rfl := Option.some.inj h
      exact .tick seconds
  | merge table parts into =>
      obtain ⟨⟨hlength, -, hparts⟩, h⟩ := Option.ite_none_right_eq_some.mp h
      obtain rfl := Option.some.inj h
      exact .merge table parts into hlength hparts
  | read rows =>
      simp only [System.step] at h
      split at h
      · next part_totals table rest hwaiting =>
          obtain ⟨hrows, h⟩ := Option.ite_none_right_eq_some.mp h
          obtain rfl := Option.some.inj h
          exact .read part_totals table rest rows hwaiting (total_of_counts hrows)
      · cases h
  | read_failed =>
      simp only [System.step] at h
      split at h
      · next part_totals table rest hwaiting =>
          obtain rfl := Option.some.inj h
          exact .read_failed part_totals table rest hwaiting
      · cases h
  | compare =>
      simp only [System.step] at h
      split at h
      · next part_totals hwaiting =>
          split at h
          · next hsame =>
              obtain rfl := Option.some.inj h
              exact .settle part_totals hwaiting hsame
          · next hdiffer =>
              obtain rfl := Option.some.inj h
              exact .again part_totals hwaiting hdiffer
      · cases h
  | wake =>
      simp only [System.step] at h
      split at h
      · next until_time hwaiting =>
          obtain ⟨hslept, h⟩ := Option.ite_none_right_eq_some.mp h
          obtain rfl := Option.some.inj h
          exact .wake until_time hwaiting hslept
      · cases h

/-- A merge leaves fewer parts. -/
theorem length_merge {table : String} {parts : List Part} (into : Part)
    (hlength : 2 ≤ parts.length) (hparts : parts.Subperm (s.active table)) :
    ((s.merge table parts into).active table).length + 1 ≤ (s.active table).length := by
  have hdiff : ((s.active table).diff parts).length + parts.length = (s.active table).length := by
    have hcard := Multiset.card_sub (Multiset.coe_le.mpr hparts)
    rw [Multiset.coe_sub, Multiset.coe_card, Multiset.coe_card, Multiset.coe_card] at hcard
    have hle := hparts.length_le
    omega
  change (Function.update s.active table (into :: (s.active table).diff parts) table).length + 1
    ≤ _
  rw [Function.update_self, List.length_cons]
  omega

end Steps

/-! ## Readings -/

section Readings

variable {formatReadableSize : ℕ → String} {group : TableGroup} {s s' : System} {table : String}

/-- A reading of the table that was made by now. -/
structure Reading.Of (r : Reading) (s : System) (table : String) : Prop where
  at_time : r.at_time ≤ s.now
  merged : r.merged ≤ s.merged table
  total : (s.active table).length + s.merged table ≤ r.total + r.merged

/-- The later of two readings of a table, with a window between them. -/
structure Reading.Precedes (r r' : Reading) : Prop where
  at_time : r.at_time + RAW_MERGE_STABILITY_WINDOW ≤ r'.at_time
  merged : r.merged ≤ r'.merged
  total : r'.total + r'.merged ≤ r.total + r.merged

/-- A later reading of a table has no more parts. -/
theorem Reading.Precedes.total_le {r r' : Reading} (h : r.Precedes r') : r'.total ≤ r.total := by
  have htotal := h.total
  have hmerged := h.merged
  omega

/-- Nothing was merged between two readings with the same number of parts. -/
theorem Reading.Precedes.quiet {r r' : Reading} (h : r.Precedes r') (hsame : r'.total = r.total) :
    r'.merged = r.merged := by
  have htotal := h.total
  have hmerged := h.merged
  omega

/-- Time passes, and merges leave fewer parts. -/
theorem Reading.Of.step {r : Reading} {l : Label} (hr : r.Of s table) (h : Step group s l s') :
    r.Of s' table := by
  cases h with
  | tick seconds => exact ⟨hr.at_time.trans (Nat.le_add_right _ _), hr.merged, hr.total⟩
  | merge other parts into hlength hparts =>
      have hfewer := length_merge into hlength hparts
      have hmerged := hr.merged
      have htotal := hr.total
      by_cases hsame : table = other
      · subst hsame
        refine ⟨hr.at_time, ?_, ?_⟩
        · change _ ≤ Function.update s.merged table (s.merged table + 1) table
          rw [Function.update_self]
          omega
        · change _ + Function.update s.merged table (s.merged table + 1) table ≤ _
          rw [Function.update_self]
          omega
      · refine ⟨hr.at_time, ?_, ?_⟩
        · change _ ≤ Function.update s.merged other (s.merged other + 1) table
          rwa [Function.update_of_ne hsame]
        · change (Function.update s.active other _ table).length
            + Function.update s.merged other (s.merged other + 1) table ≤ _
          rwa [Function.update_of_ne hsame, Function.update_of_ne hsame]
  | _ => exact ⟨hr.at_time, hr.merged, hr.total⟩

/-- What a probe reads now is a reading of the table. -/
theorem reading_of_now (s : System) (table : String) :
    (⟨s.now, (s.active table).length, s.merged table⟩ : Reading).Of s table :=
  ⟨le_rfl, le_rfl, le_rfl⟩

/-- A reading made now comes after one that is a window old. -/
theorem Reading.Of.precedes {r : Reading} (hr : r.Of s table)
    (hold : r.at_time + RAW_MERGE_STABILITY_WINDOW ≤ s.now) :
    r.Precedes ⟨s.now, (s.active table).length, s.merged table⟩ :=
  ⟨hold, hr.merged, hr.total⟩

/-! ## The wait -/

/-- The probe under way: its totals are those of its readings, which come a window after
those of the probe before it. -/
structure Probed (s : System) (done : List String) (part_totals : List ℕ) : Prop where
  totals : part_totals = done.map fun table => (s.current table).total
  current : ∀ table ∈ done, (s.current table).Of s table
  later : s.previous_part_totals ≠ none → ∀ table ∈ done,
    (s.before table).Precedes (s.current table)

/-- The tables have been read as often as the wait says, and what it compares is what it
has read. -/
structure Sound (group : TableGroup) (s : System) : Prop where
  previous : ∀ part_totals, s.previous_part_totals = some part_totals →
    part_totals = (tables group).map (fun table => (s.before table).total) ∧
      ∀ table ∈ tables group, (s.before table).Of s table
  probing : ∀ part_totals rest, s.waiting = .probing part_totals rest →
    (s.previous_part_totals ≠ none → ∀ table ∈ tables group,
      (s.before table).at_time + RAW_MERGE_STABILITY_WINDOW ≤ s.now) ∧
    ∃ done, tables group = done ++ rest ∧ Probed s done part_totals
  sleeping : ∀ until_time, s.waiting = .sleeping until_time → s.previous_part_totals ≠ none →
    ∀ table ∈ tables group, (s.before table).at_time + RAW_MERGE_STABILITY_WINDOW ≤ until_time
  settled : s.waiting = .settled → ∀ table ∈ tables group,
    (s.before table).Precedes (s.current table) ∧
      (s.current table).total = (s.before table).total

/-- Before the first probe there is nothing to be sound about. -/
theorem sound_start (group : TableGroup) (now : ℕ) (active : String → List Part) :
    Sound group (start group now active) where
  previous _ h := by cases h
  probing part_totals rest h := by
    obtain ⟨rfl, rfl⟩ := Waiting.probing.inj h
    exact ⟨fun hsome => absurd rfl hsome, [], rfl, rfl, by simp, by simp⟩
  sleeping _ h := by cases h
  settled h := by cases h

theorem tables_nodup (group : TableGroup) : (tables group).Nodup := by
  cases group <;> decide +kernel

/-- What only time and merges change. -/
theorem Sound.aside (hs : Sound group s) {l : Label} (h : Step group s l s')
    (hnow : s.now ≤ s'.now) (hwaiting : s'.waiting = s.waiting)
    (hprevious : s'.previous_part_totals = s.previous_part_totals)
    (hbefore : s'.before = s.before) (hcurrent : s'.current = s.current) : Sound group s' where
  previous part_totals hsome := by
    rw [hprevious] at hsome
    rw [hbefore]
    obtain ⟨htotals, hof⟩ := hs.previous part_totals hsome
    exact ⟨htotals, fun table htable => (hof table htable).step h⟩
  probing part_totals rest hprobing := by
    rw [hwaiting] at hprobing
    obtain ⟨hold, done, hdone, hprobed⟩ := hs.probing part_totals rest hprobing
    rw [hprevious, hbefore]
    refine ⟨fun hsome table htable => (hold hsome table htable).trans hnow, done, hdone, ?_⟩
    refine ⟨hcurrent ▸ hprobed.totals, fun table htable => ?_, ?_⟩
    · rw [hcurrent]
      exact (hprobed.current table htable).step h
    · rw [hprevious, hbefore, hcurrent]
      exact hprobed.later
  sleeping until_time hsleeping := by
    rw [hwaiting] at hsleeping
    rw [hprevious, hbefore]
    exact hs.sleeping until_time hsleeping
  settled hsettled := by
    rw [hwaiting] at hsettled
    rw [hbefore, hcurrent]
    exact hs.settled hsettled

/-- One step, by the step: merges only take parts away and count up. -/
theorem Sound.step (hs : Sound group s) {l : Label} (h : Step group s l s') : Sound group s' := by
  have hof : ∀ {r : Reading} {table : String}, r.Of s table → r.Of s' table := fun hr => hr.step h
  have hprevious : ∀ part_totals, s.previous_part_totals = some part_totals →
      part_totals = (tables group).map (fun table => (s.before table).total) ∧
        ∀ table ∈ tables group, (s.before table).Of s' table := fun part_totals hsome =>
    (hs.previous part_totals hsome).imp_right fun hread table htable => hof (hread table htable)
  cases h with
  | tick seconds => exact hs.aside (.tick seconds) (Nat.le_add_right _ _) rfl rfl rfl rfl
  | merge table parts into hlength hparts =>
      exact hs.aside (.merge table parts into hlength hparts) le_rfl rfl rfl rfl rfl
  | read part_totals table rest rows hwaiting htotal =>
      obtain ⟨hold, done, hdone, hprobed⟩ := hs.probing _ _ hwaiting
      -- a table is read once in a probe
      have hnew : table ∉ done := by
        have hnodup := tables_nodup group
        rw [hdone, List.nodup_append] at hnodup
        intro hmem
        exact hnodup.2.2 table hmem table List.mem_cons_self rfl
      have hmem : table ∈ tables group := by
        rw [hdone]
        exact List.mem_append_right _ List.mem_cons_self
      have hother : ∀ other ∈ done, Function.update s.current table
          ⟨s.now, (s.active table).length, s.merged table⟩ other = s.current other :=
        fun other hother => Function.update_of_ne (ne_of_mem_of_not_mem hother hnew) ..
      refine ⟨hprevious, ?_, nofun, nofun⟩
      intro part_totals' rest' hprobing
      obtain ⟨rfl, rfl⟩ := Waiting.probing.inj hprobing
      refine ⟨hold, done ++ [table], by rw [hdone, List.append_assoc]; rfl, ?_, ?_, ?_⟩
      · rw [List.map_append, htotal, hprobed.totals]
        congr 1
        · exact List.map_congr_left fun other hdone => by
            change _ = (Function.update s.current table _ other).total
            rw [hother other hdone]
        · change [_] = [(Function.update s.current table _ table).total]
          rw [Function.update_self]
      · intro other hother'
        change Reading.Of (Function.update s.current table _ other) _ other
        rcases List.mem_append.mp hother' with hdone | hlast
        · rw [hother other hdone]
          exact hof (hprobed.current other hdone)
        · obtain rfl := List.mem_singleton.mp hlast
          rw [Function.update_self]
          exact hof (reading_of_now s other)
      · intro hsome other hother'
        change (s.before other).Precedes (Function.update s.current table _ other)
        rcases List.mem_append.mp hother' with hdone | hlast
        · rw [hother other hdone]
          exact hprobed.later hsome other hdone
        · obtain rfl := List.mem_singleton.mp hlast
          rw [Function.update_self]
          obtain ⟨part_totals, hprevious⟩ := Option.ne_none_iff_exists'.mp hsome
          exact ((hs.previous part_totals hprevious).2 other hmem).precedes (hold hsome other hmem)
  | read_failed part_totals table rest hwaiting =>
      obtain ⟨hold, -⟩ := hs.probing _ _ hwaiting
      refine ⟨hprevious, nofun, ?_, nofun⟩
      intro until_time hsleeping hsome other hmem
      obtain rfl := Waiting.sleeping.inj hsleeping
      exact (hold hsome other hmem).trans (Nat.le_add_right _ _)
  | settle part_totals hwaiting hsame =>
      obtain ⟨-, done, hdone, hprobed⟩ := hs.probing _ _ hwaiting
      rw [List.append_nil] at hdone
      subst hdone
      obtain ⟨htotals, -⟩ := hs.previous part_totals hsame
      refine ⟨hprevious, nofun, nofun, fun _ table htable => ?_⟩
      refine ⟨hprobed.later (by rw [hsame]; exact Option.some_ne_none _) table htable, ?_⟩
      exact List.map_inj_left.mp (hprobed.totals.symm.trans htotals) table htable
  | again part_totals hwaiting hdiffer =>
      obtain ⟨-, done, hdone, hprobed⟩ := hs.probing _ _ hwaiting
      rw [List.append_nil] at hdone
      subst hdone
      refine ⟨?_, nofun, ?_, nofun⟩
      · intro part_totals' hsome
        obtain rfl := Option.some.inj hsome
        exact ⟨hprobed.totals, fun table htable => hof (hprobed.current table htable)⟩
      · intro until_time hsleeping _ table htable
        obtain rfl := Waiting.sleeping.inj hsleeping
        exact Nat.add_le_add_right (hprobed.current table htable).at_time _
  | wake until_time hwaiting hslept =>
      refine ⟨hprevious, ?_, nofun, nofun⟩
      intro part_totals rest hprobing
      obtain ⟨rfl, rfl⟩ := Waiting.probing.inj hprobing
      refine ⟨fun hsome table htable => ?_, [], rfl, rfl, by simp, by simp⟩
      exact (hs.sleeping until_time hwaiting hsome table htable).trans hslept

end Readings

/-! ## What the wait is for -/

/-- **Behind the barrier nothing is being merged.** Where the wait is over, every table
was read twice, a window or more apart, with as many parts both times, and no merge of it
came to its end in between. -/
theorem settled_is_quiet (formatReadableSize : ℕ → String) (group : TableGroup) (now : ℕ)
    (active : String → List Part) {labels : List Label} {s : System}
    (hrun : Lts.run (System.step formatReadableSize group) (start group now active) labels = some s)
    (hsettled : s.waiting = .settled) :
    ∀ table ∈ tables group,
      (s.before table).at_time + RAW_MERGE_STABILITY_WINDOW ≤ (s.current table).at_time ∧
        (s.current table).total = (s.before table).total ∧
        (s.current table).merged = (s.before table).merged := by
  have hs : Sound group s :=
    Lts.invariant (fun _ _ _ hs h => hs.step (step_cases h)) (sound_start group now active) hrun
  intro table htable
  obtain ⟨hprecedes, hsame⟩ := hs.settled hsettled table htable
  exact ⟨hprecedes.at_time, hsame, hprecedes.quiet hsame⟩

/-- One table with two parts. -/
def two_parts (table : String) : List Part :=
  if table = "raw_account" then [⟨"202401", 1, 10⟩, ⟨"202401", 2, 20⟩] else []

/-- A probe of the six tables, of which the first has the rows. -/
def probe (rows : List RawMergePartCount) : List Label :=
  .read rows :: List.replicate 5 (.read [])

/-- The two parts are merged in the first window, and a read fails in the second. -/
def merged_in_first_window : List Label :=
  List.flatten [probe [⟨"202401", 2, 3, ""⟩],
    [.compare, .merge "raw_account" [⟨"202401", 2, 20⟩, ⟨"202401", 1, 10⟩] ⟨"202401", 3, 30⟩,
      .tick 120, .wake],
    probe [⟨"202401", 1, 3, ""⟩], [.compare, .tick 120, .wake, .read_failed, .tick 10, .wake],
    probe [⟨"202401", 1, 3, ""⟩], [.compare]]

theorem merged_in_first_window_run : ∃ s, Lts.run (System.step (fun _ => "") .Active)
      (start .Active 0 two_parts) merged_in_first_window = some s ∧ s.waiting = .settled ∧
    s.before "raw_account" = ⟨120, 1, 1⟩ ∧ s.current "raw_account" = ⟨250, 1, 1⟩ := by
  have hrun : (Lts.run (System.step (fun _ => "") .Active) (start .Active 0 two_parts)
      merged_in_first_window).map (fun s => (s.waiting, s.before "raw_account",
        s.current "raw_account")) = some (.settled, ⟨120, 1, 1⟩, ⟨250, 1, 1⟩) := by
    decide +kernel
  obtain ⟨s, hs, hstate⟩ := Option.map_eq_some_iff.mp hrun
  simp only [Prod.mk.injEq] at hstate
  exact ⟨s, hs, hstate⟩

theorem settled_is_quiet_merged : ∃ s : System, s.waiting = .settled ∧
    ∀ table ∈ tables .Active,
      (s.before table).at_time + RAW_MERGE_STABILITY_WINDOW ≤ (s.current table).at_time ∧
        (s.current table).total = (s.before table).total ∧
        (s.current table).merged = (s.before table).merged := by
  obtain ⟨s, hrun, hsettled, -⟩ := merged_in_first_window_run
  exact ⟨s, hsettled, settled_is_quiet _ _ _ _ hrun hsettled⟩

/-! ## How long it lasts -/

section Bound

variable {formatReadableSize : ℕ → String} {group : TableGroup} {started : String → List Part}
  {s s' : System}

/-- The parts of the group when the wait began. -/
def parts_of (group : TableGroup) (started : String → List Part) : ℕ :=
  ((tables group).map fun table => (started table).length).sum

/-- There are never more parts than there were, nor were more read. -/
structure Within (started : String → List Part) (s : System) : Prop where
  active : ∀ table, (s.active table).length + s.merged table ≤ (started table).length
  current : ∀ table, (s.current table).total ≤ (started table).length

/-- The readings stay within what the barrier started with. -/
theorem Within.step (hs : Within started s) {l : Label} (h : Step group s l s') :
    Within started s' := by
  have hactive : ∀ table,
      (s'.active table).length + s'.merged table ≤ (started table).length := by
    intro table
    have hof : Reading.Of ⟨s.now, (started table).length, 0⟩ s table :=
      ⟨le_rfl, Nat.zero_le _, hs.active table⟩
    exact (hof.step h).total
  refine ⟨hactive, fun table => ?_⟩
  cases h with
  | read part_totals other rest rows hwaiting htotal =>
      change (Function.update s.current other _ table).total ≤ _
      by_cases hsame : table = other
      · subst hsame
        rw [Function.update_self]
        exact (Nat.le_add_right _ _).trans (hs.active table)
      · rw [Function.update_of_ne hsame]
        exact hs.current table
  | _ => exact hs.current table

/-- What the complete probes that are left cost, one each. -/
def budget (group : TableGroup) (started : String → List Part) (s : System) : ℕ :=
  if s.waiting = .settled then 0
  else (s.previous_part_totals.map fun part_totals => part_totals.sum + 1).getD
    (parts_of group started + 2)

/-- A settled barrier has no comparison left to make. -/
theorem budget_settled (h : s.waiting = .settled) : budget group started s = 0 := if_pos h

/-- Before the first probe: all the parts and two comparisons. -/
theorem budget_first (h : s.waiting ≠ .settled) (hprevious : s.previous_part_totals = none) :
    budget group started s = parts_of group started + 2 := by
  rw [budget, if_neg h, hprevious]
  rfl

/-- After a probe: the parts it read and one comparison. -/
theorem budget_next {part_totals : List ℕ} (h : s.waiting ≠ .settled)
    (hprevious : s.previous_part_totals = some part_totals) :
    budget group started s = part_totals.sum + 1 := by
  rw [budget, if_neg h, hprevious]
  rfl

/-- Numbers that are no larger, but not the same, have a smaller sum. -/
theorem sum_lt_of_ne {α : Type} {l : List α} {f g : α → ℕ} (hle : ∀ a ∈ l, f a ≤ g a)
    (hne : l.map f ≠ l.map g) : (l.map f).sum < (l.map g).sum := by
  induction l with
  | nil => exact absurd rfl hne
  | cons a l ih =>
      rw [List.forall_mem_cons] at hle
      rw [List.map_cons, List.map_cons, List.sum_cons, List.sum_cons]
      by_cases hrest : l.map f = l.map g
      · have hhead : f a ≠ g a := fun hhead =>
          hne (by rw [List.map_cons, List.map_cons, hhead, hrest])
        have hhead' := hle.1
        rw [hrest]
        omega
      · have hlt := ih hle.2 hrest
        have hhead := hle.1
        omega

def is_compare : System → Label → Bool
  | _, .compare => true
  | _, _ => false

/-- A complete probe that is not the last has found fewer parts than the one before it. -/
theorem budget_step (hs : Sound group s) (hwithin : Within started s) {l : Label}
    (h : Step group s l s') :
    if is_compare s l then budget group started s' < budget group started s
    else budget group started s' ≤ budget group started s := by
  have hsame : s'.waiting ≠ .settled → s.waiting ≠ .settled →
      s'.previous_part_totals = s.previous_part_totals →
      budget group started s' ≤ budget group started s := by
    intro hwaiting' hwaiting hprevious
    rw [budget, budget, if_neg hwaiting', if_neg hwaiting, hprevious]
  cases h with
  | tick seconds => exact le_rfl
  | merge table parts into hlength hparts => exact le_rfl
  | read part_totals table rest rows hwaiting htotal => exact hsame nofun (by simp [hwaiting]) rfl
  | read_failed part_totals table rest hwaiting => exact hsame nofun (by simp [hwaiting]) rfl
  | wake until_time hwaiting hslept => exact hsame nofun (by simp [hwaiting]) rfl
  | settle part_totals hwaiting hprevious =>
      rw [is_compare, if_pos rfl, budget_settled rfl, budget_next (by simp [hwaiting]) hprevious]
      omega
  | again part_totals hwaiting hdiffer =>
      obtain ⟨-, done, hdone, hprobed⟩ := hs.probing _ _ hwaiting
      rw [List.append_nil] at hdone
      subst hdone
      have hafter : budget group started { s with
          waiting := .sleeping (s.now + RAW_MERGE_STABILITY_WINDOW)
          previous_part_totals := some part_totals
          before := s.current } = part_totals.sum + 1 := budget_next nofun rfl
      rw [is_compare, if_pos rfl, hafter]
      cases hprevious : s.previous_part_totals with
      | none =>
          have hsum : part_totals.sum ≤ parts_of group started := by
            rw [hprobed.totals]
            exact List.sum_le_sum fun table _ => hwithin.current table
          rw [budget_first (by simp [hwaiting]) hprevious]
          omega
      | some previous =>
          have hsome : s.previous_part_totals ≠ none := by simp [hprevious]
          have htotals := (hs.previous previous hprevious).1
          have hfewer : part_totals.sum < previous.sum := by
            rw [hprobed.totals, htotals]
            refine sum_lt_of_ne (fun table htable => (hprobed.later hsome table htable).total_le) ?_
            rw [← hprobed.totals, ← htotals]
            intro hequal
            exact hdiffer (hprevious.trans (congrArg some hequal.symm))
          rw [budget_next (by simp [hwaiting]) hprevious]
          omega

/-! ## Nothing stands in its way -/

/-- No merge, and no probe that fails. -/
def answered : Label → Bool
  | .merge _ _ _ | .read_failed => false
  | _ => true

def answered_step (formatReadableSize : ℕ → String) (group : TableGroup) (s : System) (l : Label) :
    Option System :=
  if answered l then s.step formatReadableSize group l else none

/-- How far a probe is from its end. -/
def Waiting.ahead : Waiting → ℕ
  | probing _ rest => rest.length + 1
  | sleeping _ => GROUP_MERGE_TABLES.length + 2
  | settled => 0

def rank (group : TableGroup) (started : String → List Part) (s : System) : ℕ :=
  (GROUP_MERGE_TABLES.length + 3) * budget group started s + s.waiting.ahead

/-- A wait that is not over comes closer to its end. -/
theorem exists_answered (hs : Sound group s) (hwithin : Within started s)
    (hwaiting : s.waiting ≠ .settled) :
    ∃ s', Lts.Reaches (answered_step formatReadableSize group) s s' ∧
      (Sound group s' ∧ Within started s') ∧ rank group started s' < rank group started s := by
  cases hat : s.waiting with
  | settled => exact absurd hat hwaiting
  | probing part_totals rest =>
      rcases rest with _ | ⟨table, rest⟩
      · obtain ⟨s', hstep, hahead⟩ : ∃ s', s.step formatReadableSize group .compare = some s' ∧
            s'.waiting.ahead ≤ GROUP_MERGE_TABLES.length + 2 := by
          simp only [System.step, hat]
          split
          · exact ⟨_, rfl, Nat.zero_le _⟩
          · exact ⟨_, rfl, le_rfl⟩
        have hcases := step_cases hstep
        refine ⟨s', .single .compare hstep, ⟨hs.step hcases, hwithin.step hcases⟩, ?_⟩
        have hcost : budget group started s' < budget group started s :=
          budget_step hs hwithin hcases
        rw [rank, rank, hat]
        have hmul := Nat.mul_le_mul_left (GROUP_MERGE_TABLES.length + 3) hcost
        rw [Nat.mul_succ] at hmul
        change _ < _ + 1
        omega
      · have hstep : s.step formatReadableSize group
            (.read (raw_merge_part_counts formatReadableSize (s.active table)))
            = some (s.reading part_totals table rest
                (raw_merge_part_counts formatReadableSize (s.active table))) := by
          simp only [System.step, hat]
          exact if_pos (.refl _)
        have hcases := step_cases hstep
        refine ⟨_, .single (.read _) hstep, ⟨hs.step hcases, hwithin.step hcases⟩, ?_⟩
        have hcost : budget group started _ ≤ budget group started s :=
          budget_step hs hwithin hcases
        have hmul := Nat.mul_le_mul_left (GROUP_MERGE_TABLES.length + 3) hcost
        rw [rank, rank, hat]
        change _ + (rest.length + 1) < _ + (rest.length + 1 + 1)
        omega
  -- the clock moves on to the end of the window, and the barrier wakes
  | sleeping until_time =>
      have hticked : s.step formatReadableSize group (.tick (until_time - s.now))
          = some { s with now := s.now + (until_time - s.now) } := rfl
      have hwake : System.step formatReadableSize group
          { s with now := s.now + (until_time - s.now) } .wake
          = some { s with
              now := s.now + (until_time - s.now)
              waiting := .probing [] (tables group) } := by
        simp only [System.step, hat]
        exact if_pos (by omega)
      have htick := step_cases hticked
      have hcases := step_cases hwake
      refine ⟨_, .trans (.single (.tick _) hticked) (.single .wake hwake),
        ⟨(hs.step htick).step hcases, (hwithin.step htick).step hcases⟩, ?_⟩
      have hcost : budget group started _ ≤ budget group started s :=
        budget_step (hs.step htick) (hwithin.step htick) hcases
      have hmul := Nat.mul_le_mul_left (GROUP_MERGE_TABLES.length + 3) hcost
      have hlength : (tables group).length = GROUP_MERGE_TABLES.length := List.length_map ..
      rw [rank, rank, hat]
      change _ + ((tables group).length + 1) < _ + (GROUP_MERGE_TABLES.length + 2)
      omega

end Bound

/-- **The wait comes to its end.** Whatever merges meanwhile, it makes no more complete
probes than there were parts, and two; and from wherever it has got to, it is over after
probes that are answered, if nothing is merged any more. -/
theorem merges_settle (formatReadableSize : ℕ → String) (group : TableGroup) (now : ℕ)
    (active : String → List Part) {labels : List Label} {s : System}
    (hrun : Lts.run (System.step formatReadableSize group) (start group now active) labels
      = some s) :
    Lts.occurrences (System.step formatReadableSize group) is_compare (start group now active)
        labels ≤ parts_of group active + 2 ∧
      ∃ s', Lts.Reaches (answered_step formatReadableSize group) s s' ∧ s'.waiting = .settled := by
  have hstep : ∀ (s : System) (l : Label) (s' : System), Sound group s ∧ Within active s →
      s.step formatReadableSize group l = some s' → Sound group s' ∧ Within active s' :=
    fun _ _ _ hs h => ⟨hs.1.step (step_cases h), hs.2.step (step_cases h)⟩
  have hstart : Sound group (start group now active) ∧ Within active (start group now active) :=
    ⟨sound_start group now active, fun _ => le_rfl, fun _ => Nat.zero_le _⟩
  have hbudget : Lts.occurrences (System.step formatReadableSize group) is_compare
      (start group now active) labels + budget group active s
        ≤ budget group active (start group now active) :=
    Lts.occurrences_le_of_budget (budget group active)
      (fun s l s' hs h => ⟨hstep s l s' hs h, budget_step hs.1 hs.2 (step_cases h)⟩) hstart hrun
  have hfirst : budget group active (start group now active) = parts_of group active + 2 :=
    budget_first nofun rfl
  refine ⟨by omega, ?_⟩
  let ahead : System → ℕ := fun t => if t.waiting = .settled then 0 else rank group active t
  have hmoves : ∀ t : System, Sound group t ∧ Within active t → ahead t ≠ 0 →
      ∃ t', Lts.Reaches (answered_step formatReadableSize group) t t' ∧
        (Sound group t' ∧ Within active t') ∧ ahead t' < ahead t := by
    intro t ht hahead
    have hwaiting : t.waiting ≠ .settled := fun h => hahead (if_pos h)
    obtain ⟨t', hreach, ht', hlt⟩ := exists_answered ht.1 ht.2 hwaiting
    refine ⟨t', hreach, ht', ?_⟩
    simp only [ahead, if_neg hwaiting]
    split <;> omega
  obtain ⟨s', hreach, -, hzero⟩ :=
    Lts.reaches_of_rank ahead hmoves (Lts.invariant hstep hstart hrun)
  refine ⟨s', hreach, ?_⟩
  by_contra hwaiting
  simp only [ahead, if_neg hwaiting] at hzero
  -- a wait that is not over has something ahead
  cases hat : s'.waiting with
  | settled => exact hwaiting hat
  | _ => simp [rank, hat, Waiting.ahead] at hzero

/-- The first probe, and the merge after it: from there the wait comes to its end. -/
def merged_after_probe : List Label :=
  merged_in_first_window.take 8

theorem merges_settle_merged : ∃ s, Lts.run (System.step (fun _ => "") .Active)
      (start .Active 0 two_parts) merged_after_probe = some s ∧ s.waiting = .sleeping 120 ∧
    Lts.occurrences (System.step (fun _ => "") .Active) is_compare (start .Active 0 two_parts)
      merged_after_probe ≤ parts_of .Active two_parts + 2 ∧
    ∃ s', Lts.Reaches (answered_step (fun _ => "") .Active) s s' ∧ s'.waiting = .settled := by
  have hrun : (Lts.run (System.step (fun _ => "") .Active) (start .Active 0 two_parts)
      merged_after_probe).map System.waiting = some (.sleeping 120) := by
    decide +kernel
  obtain ⟨s, hs, hwaiting⟩ := Option.map_eq_some_iff.mp hrun
  exact ⟨s, hs, hwaiting, merges_settle _ _ _ _ hs⟩

end SnapshotEtl.MergeBarrier
