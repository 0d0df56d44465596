/-
Jumps along a line.

A jump has a base and a tip, and may be taken from any point that is not before its
base and is before its tip. So a jump open somewhere is open at every later point up
to its tip, and whoever stands where no jump is open has every walk that started
behind him behind him. The furthest jump is therefore never a mistake.
-/
import Mathlib.Data.List.Pairwise
import Mathlib.Order.Bounds.Basic

set_option autoImplicit false

namespace SnapshotEtl.Lib.Jumps

variable {ι α : Type*} [LinearOrder α] (base tip : ι → α)

/-- The jump `j` may be taken from `p`. -/
def Open (p : α) (j : ι) : Prop := base j ≤ p ∧ p < tip j

/-- The jumps `js`, each taken from where the one before it landed. -/
inductive Walk (jumps : Set ι) : α → List ι → Prop
  | nil {p : α} : Walk jumps p []
  | cons {p : α} {j : ι} {js : List ι} (hj : j ∈ jumps) (hopen : Open base tip p j)
      (rest : Walk jumps (tip j) js) : Walk jumps p (j :: js)

/-- Where a walk ends. -/
def final (p : α) : List ι → α
  | [] => p
  | j :: js => final (tip j) js

def Reaches (jumps : Set ι) (p q : α) : Prop := ∃ js, Walk base tip jumps p js ∧ final tip p js = q

/-- No jump is open. -/
def Stuck (jumps : Set ι) (p : α) : Prop := ∀ j ∈ jumps, ¬ Open base tip p j

/-- A jump as far as any that is open. -/
structure Furthest (jumps : Set ι) (p : α) (j : ι) : Prop where
  mem : j ∈ jumps
  is_open : Open base tip p j
  le : ∀ k ∈ jumps, Open base tip p k → tip k ≤ tip j

/-- A walk of furthest jumps, up to where none is open. -/
inductive Greedy (jumps : Set ι) : α → List ι → Prop
  | stop {p : α} (h : Stuck base tip jumps p) : Greedy jumps p []
  | jump {p : α} {j : ι} {js : List ι} (h : Furthest base tip jumps p j)
      (rest : Greedy jumps (tip j) js) : Greedy jumps p (j :: js)

variable {base tip} {jumps : Set ι} {p q : α} {js ks : List ι}

/-! ## Walks -/

namespace Walk

theorem le_final (h : Walk base tip jumps p js) : p ≤ final tip p js := by
  induction h with
  | nil => exact le_rfl
  | cons _ hopen _ ih => exact hopen.2.le.trans ih

/-- The points a walk lands on are past its start. -/
theorem lt_tip (h : Walk base tip jumps p js) : ∀ j ∈ js, p < tip j := by
  induction h with
  | nil => simp
  | cons _ hopen _ ih =>
      rw [List.forall_mem_cons]
      exact ⟨hopen.2, fun k hk => hopen.2.trans (ih k hk)⟩

theorem pairwise (h : Walk base tip jumps p js) : js.Pairwise fun j k => tip j < tip k := by
  induction h with
  | nil => exact .nil
  | cons _ _ rest ih => exact .cons rest.lt_tip ih

/-- No jump is taken twice. -/
theorem nodup (h : Walk base tip jumps p js) : js.Nodup :=
  h.pairwise.imp fun {_ _} hlt heq => absurd (congrArg tip heq) hlt.ne

end Walk

/-- **A stuck point is past every walk** that starts no further than it. -/
theorem Stuck.final_le (h : Stuck base tip jumps p) (hw : Walk base tip jumps q js) (hq : q ≤ p) :
    final tip q js ≤ p := by
  induction hw with
  | nil => exact hq
  | cons hj hopen _ ih =>
      -- beyond the stuck point, the jump would be open there
      exact ih (not_lt.mp fun hlt => h _ hj ⟨hopen.1.trans hq, hlt⟩)

/-! ## Greedy walks -/

namespace Greedy

theorem walk (h : Greedy base tip jumps p js) : Walk base tip jumps p js := by
  induction h with
  | stop _ => exact .nil
  | jump h _ ih => exact .cons h.mem h.is_open ih

theorem stuck (h : Greedy base tip jumps p js) : Stuck base tip jumps (final tip p js) := by
  induction h with
  | stop h => exact h
  | jump _ _ ih => exact ih

/-- **A greedy walk ends at the greatest point there is to reach.** -/
theorem isGreatest_final (h : Greedy base tip jumps p js) :
    IsGreatest {q | Reaches base tip jumps p q} (final tip p js) := by
  refine ⟨⟨js, h.walk, rfl⟩, ?_⟩
  rintro q ⟨ks, hks, rfl⟩
  exact h.stuck.final_le hks h.walk.le_final

end Greedy

end SnapshotEtl.Lib.Jumps
