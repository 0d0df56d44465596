/-
What the workers of an import accumulate: statistics of their own, merged when
they are joined, and the maps and counters all of them share.

Both are shown not to depend on the order of the operations, and the statistics
to be a `Summary`, so that sharing the stream out between workers and merging
their statistics gives those of one worker that read it all.
-/
import SnapshotEtl.Worker
import SnapshotEtl.Lib.Summary

set_option autoImplicit false

namespace SnapshotEtl

open Lib

/-- The counters of `Progress`, which every worker of an import increments. -/
def Counter.is_progress : Counter → Bool
  | .append_vecs | .accounts | .tokens | .metadata => true
  | _ => false

/-! ## Statistics of one worker -/

structure ParallelWorkerStats where
  counters : Counter → ℕ
  closed_token_accounts : FMap String Slot
  affected_pairs : Finset TokenPair

namespace ParallelWorkerStats

@[ext] theorem ext' {s t : ParallelWorkerStats} (hc : ∀ c, s.counters c = t.counters c)
    (hm : s.closed_token_accounts = t.closed_token_accounts)
    (hp : s.affected_pairs = t.affected_pairs) : s = t := by
  obtain ⟨sc, sm, sp⟩ := s
  obtain ⟨tc, tm, tp⟩ := t
  obtain rfl : sc = tc := funext hc
  obtain rfl : sm = tm := hm
  obtain rfl : sp = tp := hp
  rfl

/-- `ParallelWorkerStats::default()`. -/
def default : ParallelWorkerStats := ⟨fun _ => 0, ∅, ∅⟩

def step (s : ParallelWorkerStats) : ImportOp → ParallelWorkerStats
  | .count c =>
      if c.is_progress then s
      else { s with counters := fun c' => s.counters c' + if c' = c then 1 else 0 }
  | .lane _ (.remember_affected_pair pair) =>
      { s with affected_pairs := insert pair s.affected_pairs }
  | .lane _ (.remember_close_candidate pubkey account_slot) =>
      { s with
        closed_token_accounts :=
          remember_close_candidate s.closed_token_accounts pubkey account_slot }
  | .lane _ _ => s

/-- `ParallelWorkerStats::merge`. -/
def merge (s other : ParallelWorkerStats) : ParallelWorkerStats where
  counters c := s.counters c + other.counters c
  closed_token_accounts := merge_max s.closed_token_accounts other.closed_token_accounts
  affected_pairs := s.affected_pairs ∪ other.affected_pairs

/-- The counter an operation moves, if it moves one of the worker's own. -/
def tally (op : ImportOp) (c : Counter) : ℕ :=
  match op with
  | .count c' => if c'.is_progress then 0 else if c = c' then 1 else 0
  | .lane _ _ => 0

/-- The pairs an operation adds. -/
def pairs : ImportOp → Finset TokenPair
  | .lane _ (.remember_affected_pair pair) => {pair}
  | _ => ∅

/-- The close candidate an operation brings. -/
def candidate : ImportOp → Option (String × Slot)
  | .lane _ (.remember_close_candidate pubkey account_slot) => some (pubkey, account_slot)
  | _ => none

/-- One operation adds its own tally to each counter. -/
theorem step_counters (s : ParallelWorkerStats) (op : ImportOp) (c : Counter) :
    (s.step op).counters c = s.counters c + tally op c := by
  cases op with
  | count c' =>
      simp only [step, tally]
      cases hc : c'.is_progress <;> simp
  | lane group op => cases op <;> rfl

/-- One operation adds the pairs it affects. -/
theorem step_affected_pairs (s : ParallelWorkerStats) (op : ImportOp) :
    (s.step op).affected_pairs = s.affected_pairs ∪ pairs op := by
  cases op with
  | count c' => simp only [step]; split <;> simp [pairs]
  | lane group op => cases op <;> simp [step, pairs]

/-- One operation remembers its candidate, if it has one, at the greatest slot. -/
theorem step_closed (s : ParallelWorkerStats) (op : ImportOp) :
    (s.step op).closed_token_accounts = match candidate op with
      | some (pubkey, slot) => keep_max s.closed_token_accounts pubkey slot
      | none => s.closed_token_accounts := by
  cases op with
  | count c' => simp only [step]; split <;> rfl
  | lane group op => cases op <;> rfl

theorem step_comm (s : ParallelWorkerStats) (a b : ImportOp) :
    (s.step a).step b = (s.step b).step a := by
  apply ext'
  · intro c
    simp only [step_counters]
    omega
  · simp only [step_closed]
    cases candidate a <;> cases candidate b <;> simp [keep_max_comm]
  · simp only [step_affected_pairs, Finset.union_assoc, Finset.union_comm (pairs a)]

/-- Merging the statistics of a worker that did nothing changes nothing. -/
theorem merge_default (s : ParallelWorkerStats) : s.merge default = s := by
  apply ext' <;> simp [merge, default]

/-- One more operation before a merge is one more after it. -/
theorem merge_step (s t : ParallelWorkerStats) (a : ImportOp) :
    s.merge (t.step a) = (s.merge t).step a := by
  apply ext'
  · intro c
    simp only [step_counters, merge]
    omega
  · simp only [step_closed, merge]
    cases candidate a with
    | none => rfl
    | some entry => exact merge_max_keep_max ..
  · simp only [step_affected_pairs, merge, Finset.union_assoc]

/-- The statistics of a worker summarise its operations. -/
def summary : Summary ImportOp ParallelWorkerStats where
  zero := default
  step := step
  merge := merge
  step_comm := step_comm
  merge_zero := merge_default
  merge_step := merge_step

end ParallelWorkerStats

/-! ## What the workers share -/

/-- The patch maps behind their mutexes and the counters of `Progress`. -/
structure Shared where
  metadata_patches : TableGroup → MetadataPatches
  progress : Counter → ℕ

namespace Shared

def new : Shared := ⟨fun _ => ∅, fun _ => 0⟩

/-- What an operation does to the patches of a group. -/
def record (op : ImportOp) (group : TableGroup) (patches : MetadataPatches) :
    MetadataPatches :=
  match op with
  | .lane g (.record_metadata_fields mint candidate) =>
      if g = group then record_metadata_fields patches mint candidate else patches
  | .lane g (.record_extensions mint candidate) =>
      if g = group then record_extensions patches mint candidate else patches
  | _ => patches

/-- The shared counter an operation moves. -/
def tally (op : ImportOp) (c : Counter) : ℕ :=
  match op with
  | .count c' => if c'.is_progress && c = c' then 1 else 0
  | .lane _ _ => 0

def step (s : Shared) (op : ImportOp) : Shared where
  metadata_patches group := record op group (s.metadata_patches group)
  progress c := s.progress c + tally op c

/-- Two metadata patches can be exchanged. -/
theorem record_comm (a b : ImportOp) (group : TableGroup) (patches : MetadataPatches) :
    record b group (record a group patches) = record a group (record b group patches) := by
  rcases a with ⟨ga, _ | _ | _ | _ | _ | _⟩ | _ <;>
    rcases b with ⟨gb, _ | _ | _ | _ | _ | _⟩ | _ <;>
      simp only [record] <;> split <;> (try split) <;>
        simp [record_metadata_fields_comm, record_extensions_comm,
          record_fields_extensions_comm]

theorem step_comm (s : Shared) (a b : ImportOp) : (s.step a).step b = (s.step b).step a := by
  simp only [step, mk.injEq]
  refine ⟨funext fun group => record_comm a b group _, funext fun c => ?_⟩
  omega

/-- The shared state after a list of operations. -/
def of (ops : List ImportOp) : Shared := ops.foldl step new

/-- The statistics of one more operation. -/
theorem of_concat (ops : List ImportOp) (op : ImportOp) :
    of (ops ++ [op]) = (of ops).step op := by
  simp [of, List.foldl_append]

/-- Any interleaving of the operations leaves the same. -/
theorem of_perm {ops ops' : List ImportOp} (h : ops.Perm ops') : of ops = of ops' :=
  h.foldl_eq' (fun a _ b _ s => step_comm s a b) new

end Shared

/-! ## Rows sent to a group -/

/-- The rows an operation sends to a group. -/
def ImportOp.rows (group : TableGroup) : ImportOp → List Row
  | .lane g (.write row) => if g = group then [row] else []
  | _ => []

/-- The rows a list of operations sends to a group, in order. -/
def rows_sent (group : TableGroup) (ops : List ImportOp) : List Row :=
  ops.flatMap (ImportOp.rows group)

@[simp] theorem rows_sent_nil (group : TableGroup) : rows_sent group [] = [] := rfl

@[simp] theorem rows_sent_cons (group : TableGroup) (op : ImportOp) (ops : List ImportOp) :
    rows_sent group (op :: ops) = op.rows group ++ rows_sent group ops := rfl

@[simp] theorem rows_sent_append (group : TableGroup) (ops ops' : List ImportOp) :
    rows_sent group (ops ++ ops') = rows_sent group ops ++ rows_sent group ops' :=
  List.flatMap_append

end SnapshotEtl
