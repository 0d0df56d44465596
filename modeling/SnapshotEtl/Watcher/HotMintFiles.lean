/-
The files of frozen mint sets: what is loaded is what was written, for which mints, and
how much of a write a crash can leave.

A set is read back exactly where each of its mints reads as one line, which those of
base58 mints do.
-/
import SnapshotEtl.Watcher.World
import SnapshotEtl.Pubkey
import SnapshotEtl.Lib.AtomicFile

set_option autoImplicit false

namespace SnapshotEtl.HotMintFiles

open Lib Watcher

/-! ## The two ends -/

/-- The text under each path. -/
abbrev Files : Type := List (String × List Char)

/-- `load_enabled_hot_mints_with_client`, from the rows of the table. -/
def load_enabled_hot_mints (rows : List String) : Except HotMintError HotMintSet :=
  if rows = [] then .error .hot_token_enabled_is_empty else .ok rows.toFinset

/-- An order in which the elements of the set may come out of it. -/
def Iterates (hot_mints : HotMintSet) (order : List String) : Prop :=
  order.Nodup ∧ order.toFinset = hot_mints

/-- `persist_frozen_hot_mints`, where it succeeds: a new file at `path`. -/
def persist_frozen_hot_mints (files : Files) (path : String) (order : List String) : Files :=
  (path, hot_mints_text order) :: files

def load_frozen_hot_mints (files : Files) (path : String) : Except HotMintError HotMintSet :=
  match files.lookup path with
  | none => .error (.failed_to_open path)
  | some text => read_hot_mints path text

/-! ## What is loaded -/

/-- The enabled set is that of the table's rows, and never empty. -/
theorem load_enabled_hot_mints_eq {rows : List String} {hot_mints : HotMintSet}
    (h : load_enabled_hot_mints rows = .ok hot_mints) :
    hot_mints = rows.toFinset ∧ hot_mints.Nonempty := by
  unfold load_enabled_hot_mints at h
  split at h
  · cases h
  · rename_i hne
    obtain rfl := Except.ok.inj h
    refine ⟨rfl, ?_⟩
    rwa [Finset.nonempty_iff_ne_empty, ne_eq, List.toFinset_eq_empty_iff]

theorem lookup_persisted (files : Files) (path : String) (order : List String) :
    (persist_frozen_hot_mints files path order).lookup path = some (hot_mints_text order) := by
  simp [persist_frozen_hot_mints]

theorem load_persisted (files : Files) (path : String) (order : List String) :
    load_frozen_hot_mints (persist_frozen_hot_mints files path order) path
      = read_hot_mints path (hot_mints_text order) := by
  rw [load_frozen_hot_mints, lookup_persisted]

/-! ## The round trip -/

/-- **Frozen mint files round-trip** exactly for the sets of mints that read as
themselves: any other set is written and not loaded, or loaded as a different one. -/
theorem frozen_hot_mints_round_trip_iff {rows : List String} {hot_mints : HotMintSet}
    (hrows : load_enabled_hot_mints rows = .ok hot_mints) {order : List String}
    (horder : Iterates hot_mints order) (files : Files) (path : String) :
    load_frozen_hot_mints (persist_frozen_hot_mints files path order) path = .ok hot_mints ↔
      ∀ mint ∈ hot_mints, ReadsAsItself mint := by
  have hne := (load_enabled_hot_mints_eq hrows).2.ne_empty
  obtain ⟨-, rfl⟩ := horder
  have hitems : ∀ mint : String, mint.toList ∈ order.map String.toList ↔ mint ∈ order :=
    fun mint => List.mem_map_of_injective fun _ _ => String.toList_injective
  rw [load_persisted, read_hot_mints_eq_ok]
  constructor
  · rintro ⟨hempty, hset, -⟩ mint hmint
    refine Lines.read_back_iff.mp ⟨?_, fun item => ?_⟩ mint.toList
      ((hitems mint).mpr (List.mem_toFinset.mp hmint))
    · rw [mem_text_lines] at hempty
      exact hempty
    · rw [← String.toList_ofList (l := item), ← hot_mints_text, ← mem_text_lines, hitems,
        ← List.mem_toFinset, ← hset, List.mem_toFinset]
  · intro h
    have hread : read_hot_mints path (hot_mints_text order) = .ok order.toFinset := by
      refine read_hot_mints_of_reads (fun mint hmint => h mint (List.mem_toFinset.mpr hmint)) ?_
        path
      rintro rfl
      exact hne rfl
    exact read_hot_mints_eq_ok.mp hread

/-- Base58 mints read as themselves. -/
theorem reads_as_itself_of_base58 {mint : String} (h : Base58 mint) (hne : mint ≠ "") :
    ReadsAsItself mint where
  ne_nil := fun hnil => hne (String.toList_injective hnil)
  no_nl := fun hmem => absurd (h _ hmem) (by decide)
  no_cr := fun hlast => absurd (h _ (List.mem_of_getLast? hlast)) (by decide)

/-- Two mints. -/
def two_mints : List String :=
  ["So11111111111111111111111111111111111111112", "EPjFWdd5AufqSSqeM2qN1xzybapC8G4wEGGkZwyTDt1v"]

theorem frozen_hot_mints_round_trip_two_mints :
    load_frozen_hot_mints (persist_frozen_hot_mints [] "d/solana-snapshot-etl-hot-mints-1.1.txt"
      two_mints) "d/solana-snapshot-etl-hot-mints-1.1.txt" = .ok two_mints.toFinset := by
  have hreads : ∀ mint ∈ two_mints, ReadsAsItself mint := fun mint hmint =>
    reads_as_itself_of_base58 ((by decide +kernel : ∀ mint ∈ two_mints, Base58 mint) mint hmint)
      ((by decide +kernel : ∀ mint ∈ two_mints, mint ≠ "") mint hmint)
  have hrows : load_enabled_hot_mints (two_mints ++ two_mints) = .ok two_mints.toFinset := by
    decide +kernel
  exact (frozen_hot_mints_round_trip_iff hrows ⟨by decide, rfl⟩ _ _).mpr fun mint hmint =>
    hreads mint (List.mem_toFinset.mp hmint)

/-- A table with an empty mint: the set is written, and never loaded. -/
theorem empty_mint_not_loaded : load_enabled_hot_mints [""] = .ok {""} ∧ Iterates {""} [""] ∧
    load_frozen_hot_mints (persist_frozen_hot_mints []
      "d/solana-snapshot-etl-hot-mints-1.1.txt" [""]) "d/solana-snapshot-etl-hot-mints-1.1.txt"
      = .error (.contains_an_empty_mint "d/solana-snapshot-etl-hot-mints-1.1.txt") :=
  ⟨by decide, ⟨by decide, by decide⟩, by decide⟩

/-! ## The write, call by call -/

/-- The names in the state directory. -/
def hot_mints_name (pid nanos : ℕ) : String :=
  HOT_MINTS_FILE_PREFIX ++ toString pid ++ "." ++ toString nanos ++ HOT_MINTS_FILE_SUFFIX

def hot_mints_temporary_name (pid nanos : ℕ) : String :=
  ".solana-snapshot-etl-hot-mints-" ++ toString pid ++ "." ++ toString nanos ++ ".tmp"

/-- The calls of `persist_frozen_hot_mints`. The mints go through a buffer, which may
write them in other pieces. -/
def write_frozen_hot_mints (order : List String) (pid nanos : ℕ) :
    AtomicFile.Files String Char String Unit :=
  AtomicFile.replace_file (hot_mints_temporary_name pid nanos) (hot_mints_name pid nanos)
    (order.map fun mint => mint.toList ++ ['\n'])

/-- Names with the same middle parts, told apart by their lengths. -/
theorem ne_of_lengths {p q s t : String} (pid nanos : String)
    (h : p.length + s.length ≠ q.length + t.length) :
    p ++ pid ++ "." ++ nanos ++ s ≠ q ++ pid ++ "." ++ nanos ++ t := by
  intro heq
  have hlength := congrArg String.length heq
  simp only [String.length_append] at hlength
  omega

theorem hot_mints_name_ne (pid nanos : ℕ) :
    hot_mints_name pid nanos ≠ hot_mints_temporary_name pid nanos :=
  ne_of_lengths _ _ (by decide +kernel)

theorem flatten_chunks (order : List String) :
    (order.map fun mint => mint.toList ++ ['\n']).flatten = hot_mints_text order := by
  rw [hot_mints_text, Lines.unlines, List.flatMap_map, List.flatMap_def]

section Writes

open AtomicFile

variable {hot_mints : HotMintSet} {order : List String} {pid nanos : ℕ} {d d' : Disk String Char}

/-- **A mint file is never part of one.** Whatever call fails, and wherever a stop or a
power loss cuts the write short, a file found under the new name lasts and loads as the
set it is of; and the write succeeds only where no power loss takes it away. -/
theorem mint_file_never_partial (path : String) (horder : Iterates hot_mints order)
    (hne : hot_mints.Nonempty) (hreads : ∀ mint ∈ hot_mints, ReadsAsItself mint)
    (hfree : ∀ names ∈ d.views, names (hot_mints_name pid nanos) = none)
    {outcomes : List (Outcome String)}
    {rest : Prog (AtomicFile.Call String Char) (Answer String) (Except String Unit × Unit)}
    (hrun : Lts.run (Prog.step Disk.respond) (write_frozen_hot_mints order pid nanos (), d) outcomes
      = some (rest, d')) :
    (∀ names ∈ d'.views, ∀ file, names (hot_mints_name pid nanos) = some file →
        file.synced = true ∧ load_frozen_hot_mints [(path, file.text)] path = .ok hot_mints) ∧
      (rest.result = some (.ok (), ()) →
        ∀ names ∈ d'.views, (names (hot_mints_name pid nanos)).isSome = true) := by
  -- the text that is written loads as the set
  have hload : load_frozen_hot_mints [(path, hot_mints_text order)] path = .ok hot_mints := by
    obtain ⟨-, rfl⟩ := horder
    rw [load_frozen_hot_mints, List.lookup_cons_self]
    refine read_hot_mints_of_reads (fun mint hmint => hreads mint (List.mem_toFinset.mpr hmint)) ?_
      path
    rintro rfl
    exact hne.ne_empty rfl
  obtain ⟨hd', hsettled⟩ := replace_file_run (hot_mints_name_ne pid nanos) _ hrun
  rw [flatten_chunks] at hd' hsettled
  -- whatever a view shows under the name is that text, since the name was free
  refine ⟨fun names hnames file hfile => ?_, fun hresult names hnames => ?_⟩
  · rcases hd'.views names hnames with hnew | ⟨names', hnames', heq⟩
    · obtain rfl := Option.some.inj (hnew.symm.trans hfile)
      exact ⟨rfl, hload⟩
    · rw [heq, hfree names' hnames'] at hfile
      cases hfile
  · have hend := hsettled hresult
    rw [Disk.views, hend.earlier, List.mem_singleton] at hnames
    rw [hnames, hend.now]
    rfl

end Writes

/-- A write of two mints that comes to its end. -/
theorem mint_file_never_partial_two_mints : ∃ d',
    Prog.Reaches AtomicFile.Disk.respond (write_frozen_hot_mints two_mints 7 1 ())
      ⟨fun _ => none, []⟩ (.ok (), ()) d' ∧
    ∀ names ∈ d'.views, ∃ file, names (hot_mints_name 7 1) = some file ∧ file.synced = true ∧
      load_frozen_hot_mints [("d/mints.txt", file.text)] "d/mints.txt"
        = .ok two_mints.toFinset := by
  have hreads : ∀ mint ∈ two_mints.toFinset, ReadsAsItself mint := fun mint hmint =>
    reads_as_itself_of_base58
      ((by decide +kernel : ∀ mint ∈ two_mints, Base58 mint) mint (List.mem_toFinset.mp hmint))
      ((by decide +kernel : ∀ mint ∈ two_mints, mint ≠ "") mint (List.mem_toFinset.mp hmint))
  have hfree : ∀ names ∈ (⟨fun _ => none, []⟩ : AtomicFile.Disk String Char).views,
      names (hot_mints_name 7 1) = none := by
    intro names hnames
    rw [List.mem_singleton.mp hnames]
  have hsucceeds : ∃ d', Prog.Reaches AtomicFile.Disk.respond
      (write_frozen_hot_mints two_mints 7 1 ()) ⟨fun _ => none, []⟩ (.ok (), ()) d' :=
    AtomicFile.replace_file_can_succeed _ rfl
  obtain ⟨d', outcomes, hrun⟩ := hsucceeds
  obtain ⟨hfound, hthere⟩ := mint_file_never_partial "d/mints.txt" ⟨by decide, rfl⟩ (by decide)
    hreads hfree hrun
  refine ⟨d', ⟨outcomes, hrun⟩, fun names hnames => ?_⟩
  obtain ⟨file, hfile⟩ := Option.isSome_iff_exists.mp (hthere rfl names hnames)
  exact ⟨file, hfile, hfound names hnames file hfile⟩

end SnapshotEtl.HotMintFiles
