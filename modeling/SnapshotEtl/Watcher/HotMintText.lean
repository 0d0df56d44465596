/-
A frozen mint file as text, and how it reads.

The writer puts a newline after each mint. The reader takes a carriage return off with
it, and refuses an empty line. What a mint looks like is nobody's business on the way
in, so a mint with a line feed comes back as several, and one that ends in a carriage
return comes back without it.

A text is the characters of a file: neither end of a line is part of another
character in UTF-8.
-/
import SnapshotEtl.Lib.Lines
import Mathlib.Data.Finset.Basic
import Mathlib.Data.Finset.Insert

set_option autoImplicit false

namespace SnapshotEtl

abbrev Watcher.HotMintSet := Finset String

namespace HotMintFiles

open Lib Watcher

/-! ## The writer -/

/-- What `persist_frozen_hot_mints` writes of the mints, in the order they come in. -/
def hot_mints_text (order : List String) : List Char := Lines.unlines '\n' (order.map String.toList)

/-! ## The reader -/

inductive HotMintError
  | hot_token_enabled_is_empty
  | failed_to_open (path : String)
  | contains_an_empty_mint (path : String)
  | is_empty (path : String)
deriving DecidableEq, Repr

def HotMintError.message : HotMintError → String
  | hot_token_enabled_is_empty => "hot_token_enabled is empty"
  | failed_to_open path => s!"failed to open frozen hot-mint file {path}"
  | contains_an_empty_mint path => s!"frozen hot-mint file {path} contains an empty mint"
  | is_empty path => s!"frozen hot-mint file {path} is empty"

/-- The loop over the lines, and the check after it. -/
def collect_mints (path : String) : List String → HotMintSet → Except HotMintError HotMintSet
  | [], mints => if mints = ∅ then .error (.is_empty path) else .ok mints
  | mint :: lines, mints =>
      if mint = "" then .error (.contains_an_empty_mint path)
      else collect_mints path lines (insert mint mints)

/-- The lines of a text, as `BufRead::lines` has them. -/
def text_lines (text : List Char) : List String := (Lines.lines '\n' '\r' text).map String.ofList

/-- `load_frozen_hot_mints`, from the text of the file, where it opens. -/
def read_hot_mints (path : String) (text : List Char) : Except HotMintError HotMintSet :=
  collect_mints path (text_lines text) ∅

/-- The loop adds every line to what it has, unless one of them is empty, and refuses
to end with nothing. -/
theorem collect_mints_eq_ok {path : String} {lines : List String} {mints result : HotMintSet} :
    collect_mints path lines mints = .ok result ↔
      "" ∉ lines ∧ result = mints ∪ lines.toFinset ∧ result ≠ ∅ := by
  induction lines generalizing mints with
  | nil =>
      rw [collect_mints]
      split
      · rename_i hempty
        simp [hempty]
      · rename_i hne
        constructor
        · intro h
          obtain rfl := Except.ok.inj h
          simp [hne]
        · rintro ⟨-, rfl, -⟩
          simp
  | cons mint lines ih =>
      rw [collect_mints]
      split
      · rename_i hempty
        simp [hempty]
      · rename_i hne
        rw [ih, List.mem_cons, not_or, List.toFinset_cons, Finset.insert_union,
          Finset.union_insert]
        simp [Ne.symm hne]

/-- So a file is read as the set of its lines, if it is read at all. -/
theorem read_hot_mints_eq_ok {path : String} {text : List Char} {mints : HotMintSet} :
    read_hot_mints path text = .ok mints ↔
      "" ∉ text_lines text ∧ mints = (text_lines text).toFinset ∧ mints ≠ ∅ := by
  rw [read_hot_mints, collect_mints_eq_ok, Finset.empty_union]

/-! ## Mints that come back -/

/-- A mint that the reader takes for one line: it is not empty, has no line feed, and
does not end in a carriage return. -/
abbrev ReadsAsItself (mint : String) : Prop := Lines.Clean '\n' '\r' mint.toList

instance (mint : String) : Decidable (ReadsAsItself mint) :=
  decidable_of_iff (mint.toList ≠ [] ∧ '\n' ∉ mint.toList ∧ mint.toList.getLast? ≠ some '\r')
    ⟨fun h => ⟨h.1, h.2.1, h.2.2⟩, fun h => ⟨h.ne_nil, h.no_nl, h.no_cr⟩⟩

theorem mem_text_lines {text : List Char} {mint : String} :
    mint ∈ text_lines text ↔ mint.toList ∈ Lines.lines '\n' '\r' text := by
  rw [text_lines, List.mem_map]
  constructor
  · rintro ⟨line, hline, rfl⟩
    rwa [String.toList_ofList]
  · intro h
    exact ⟨mint.toList, h, String.ofList_toList⟩

/-- The lines of a file of such mints are the mints. -/
theorem text_lines_of_reads {order : List String} (h : ∀ mint ∈ order, ReadsAsItself mint) :
    text_lines (hot_mints_text order) = order := by
  rw [text_lines, hot_mints_text, Lines.lines_unlines_of_clean, List.map_map]
  · refine (List.map_congr_left fun mint _ => ?_).trans (List.map_id _)
    exact String.ofList_toList
  · intro item hitem
    obtain ⟨mint, hmint, rfl⟩ := List.mem_map.mp hitem
    exact h mint hmint

/-- So the file of some such mints reads as their set. -/
theorem read_hot_mints_of_reads {order : List String} (h : ∀ mint ∈ order, ReadsAsItself mint)
    (hne : order ≠ []) (path : String) :
    read_hot_mints path (hot_mints_text order) = .ok order.toFinset := by
  rw [read_hot_mints_eq_ok, text_lines_of_reads h]
  refine ⟨fun hmem => (h "" hmem).ne_nil rfl, rfl, ?_⟩
  rwa [ne_eq, List.toFinset_eq_empty_iff]

end HotMintFiles

end SnapshotEtl
