/-
Lines of a text.

Two symbols matter, `nl` and `cr`. A line ends with `nl`, and a `cr` in front of it
goes with it; the last line may lack its end, and then keeps its `cr`. A writer that
ends each of its items with `nl` is read back item by item as long as no item looks
like several lines, or like a line that ends otherwise. For a set of items this is
not only enough: nothing makes up for an item that is read as something else
(`read_back_iff`).
-/
import Mathlib.Data.Finset.Max
import Mathlib.Data.List.Basic

set_option autoImplicit false

namespace SnapshotEtl.Lib.Lines

variable {α : Type*} [DecidableEq α] (nl cr : α)

/-- Each item, ended. -/
def unlines (items : List (List α)) : List α := items.flatMap fun item => item ++ [nl]

def strip_cr (line : List α) : List α := if line.getLast? = some cr then line.dropLast else line

/-- The lines of a text, after the part of a line. -/
def lines_from (line : List α) : List α → List (List α)
  | [] => if line = [] then [] else [line]
  | c :: text =>
      if c = nl then strip_cr cr line :: lines_from [] text else lines_from (line ++ [c]) text

def lines (text : List α) : List (List α) := lines_from nl cr [] text

/-- Read as the one line it is. -/
structure Clean (item : List α) : Prop where
  ne_nil : item ≠ []
  no_nl : nl ∉ item
  no_cr : item.getLast? ≠ some cr

variable {nl cr} {line item text : List α} {items : List (List α)}

/-- A text that ends a line can be read up to there and from there. -/
theorem lines_from_append (line item rest : List α) :
    lines_from nl cr line (item ++ nl :: rest)
      = lines_from nl cr line (item ++ [nl]) ++ lines nl cr rest := by
  induction item generalizing line with
  | nil => simp [lines_from, lines]
  | cons c item ih =>
      simp only [List.cons_append, lines_from]
      split
      · rw [ih, List.cons_append]
      · exact ih _

theorem lines_unlines (items : List (List α)) : lines nl cr (unlines nl items)
    = items.flatMap fun item => lines nl cr (item ++ [nl]) := by
  induction items with
  | nil => rfl
  | cons item items ih =>
      rw [unlines, List.flatMap_cons, List.append_assoc, List.singleton_append, lines,
        lines_from_append, List.flatMap_cons]
      exact congrArg (lines nl cr (item ++ [nl]) ++ ·) ih

theorem lines_from_ended (h : nl ∉ item) (line : List α) :
    lines_from nl cr line (item ++ [nl]) = [strip_cr cr (line ++ item)] := by
  induction item generalizing line with
  | nil => simp [lines_from]
  | cons c item ih =>
      rw [List.mem_cons, not_or] at h
      rw [List.cons_append, lines_from, if_neg (Ne.symm h.1), ih h.2, List.append_assoc,
        List.singleton_append]

/-- An item without `nl` is one line. -/
theorem lines_ended (h : nl ∉ item) : lines nl cr (item ++ [nl]) = [strip_cr cr item] :=
  lines_from_ended h []

theorem mem_of_mem_strip_cr {c : α} (h : c ∈ strip_cr cr line) : c ∈ line := by
  unfold strip_cr at h
  split at h
  · exact List.mem_of_mem_dropLast h
  · exact h

/-- No line has an `nl` in it. -/
theorem nl_notMem_lines_from (h : nl ∉ line) : ∀ l ∈ lines_from nl cr line text, nl ∉ l := by
  induction text generalizing line with
  | nil =>
      rw [lines_from]
      split
      · simp
      · simpa using h
  | cons c text ih =>
      rw [lines_from]
      split
      · rw [List.forall_mem_cons]
        exact ⟨fun hmem => h (mem_of_mem_strip_cr hmem), ih (by simp)⟩
      · rename_i hc
        apply ih
        rw [List.mem_append, List.mem_singleton, not_or]
        exact ⟨h, Ne.symm hc⟩

/-! ## Read back -/

theorem Clean.strip_cr (h : Clean nl cr item) : strip_cr cr item = item := if_neg h.no_cr

theorem lines_unlines_of_clean (h : ∀ item ∈ items, Clean nl cr item) :
    lines nl cr (unlines nl items) = items := by
  rw [lines_unlines]
  induction items with
  | nil => rfl
  | cons item items ih =>
      rw [List.forall_mem_cons] at h
      rw [List.flatMap_cons, lines_ended h.1.no_nl, h.1.strip_cr, ih h.2]
      rfl

/-- Where reading gives back the items, none of them gets shorter: the longest that did
would be missed. -/
theorem getLast?_ne_of_read_back (hnl : ∀ item ∈ items, nl ∉ item)
    (h : ∀ item, item ∈ lines nl cr (unlines nl items) ↔ item ∈ items) :
    ∀ item ∈ items, item.getLast? ≠ some cr := by
  by_contra! hsome
  obtain ⟨item, hmem, hlast⟩ := hsome
  let ended := items.toFinset.filter fun item => item.getLast? = some cr
  have hended : ended.Nonempty := ⟨item, by simp [ended, hmem, hlast]⟩
  obtain ⟨longest, hlongest, hmax⟩ := Finset.exists_max_image ended List.length hended
  rw [Finset.mem_filter, List.mem_toFinset] at hlongest
  -- it is read, and so from an item one `cr` longer
  have hread := (h longest).mpr hlongest.1
  rw [lines_unlines, List.mem_flatMap] at hread
  obtain ⟨source, hsource, hline⟩ := hread
  rw [lines_ended (hnl source hsource), List.mem_singleton, strip_cr] at hline
  split at hline
  · rename_i hcr
    have hle := hmax source (by simp [ended, hsource, hcr])
    have hpos : 0 < source.length := List.length_pos_of_ne_nil (by rintro rfl; simp at hcr)
    rw [hline, List.length_dropLast] at hle
    omega
  · rename_i hcr
    exact hcr (hline ▸ hlongest.2)

/-- **Reading gives back the items, and no empty line, exactly where all are clean.** -/
theorem read_back_iff : ([] ∉ lines nl cr (unlines nl items) ∧
      ∀ item, item ∈ lines nl cr (unlines nl items) ↔ item ∈ items) ↔
    ∀ item ∈ items, Clean nl cr item := by
  constructor
  · rintro ⟨hempty, h⟩
    have hnl : ∀ item ∈ items, nl ∉ item := fun item hmem =>
      nl_notMem_lines_from (by simp) item ((h item).mpr hmem)
    have hlast := getLast?_ne_of_read_back hnl h
    refine fun item hmem => ⟨?_, hnl item hmem, hlast item hmem⟩
    rintro rfl
    exact hempty ((h []).mpr hmem)
  · intro hclean
    rw [lines_unlines_of_clean hclean]
    exact ⟨fun hmem => (hclean [] hmem).ne_nil rfl, fun _ => Iff.rfl⟩

end SnapshotEtl.Lib.Lines
