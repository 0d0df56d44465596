/-
Labelled transition systems given by an executable partial step, and the rules
by which a fact about one step becomes a fact about runs.

A label carries whatever the step leaves open (who moves, what the environment
answers), so a run is the list of its labels. `Along` restricts a run by a
condition on each step, for facts that hold only of runs that avoid something.
-/
import Mathlib.Data.List.Basic
import Mathlib.Tactic.Common

set_option autoImplicit false

namespace SnapshotEtl.Lib.Lts

variable {S L : Type*} (step : S → L → Option S)

/-- The state after a list of labels, `none` where one of them is not enabled. -/
def run (s : S) (labels : List L) : Option S := labels.foldlM step s

@[simp] theorem run_nil (s : S) : run step s [] = some s := rfl

@[simp] theorem run_cons (s : S) (l : L) (labels : List L) :
    run step s (l :: labels) = (step s l).bind fun s' => run step s' labels := rfl

/-- A run of two stretches is the run of the first and then that of the second. -/
theorem run_append (s : S) (before after : List L) :
    run step s (before ++ after) = (run step s before).bind fun s' => run step s' after :=
  List.foldlM_append ..

/-- Runs compose. -/
theorem run_trans {s s' s'' : S} {before after : List L} (h : run step s before = some s')
    (h' : run step s' after = some s'') : run step s (before ++ after) = some s'' := by
  rw [run_append, h]
  exact h'

/-- A run of one step more. -/
theorem run_step {s s' s'' : S} {labels : List L} {l : L} (h : run step s labels = some s')
    (hl : step s' l = some s'') : run step s (labels ++ [l]) = some s'' :=
  run_trans step h (by rw [run_cons, hl]; rfl)

/-- A run over relabelled steps. -/
theorem run_map {L' : Type*} (f : L' → L) (s : S) (labels : List L') :
    run step s (labels.map f) = run (fun s l => step s (f l)) s labels := by
  rw [run, run, List.foldlM_map]

/-- Every step of the run meets the condition. -/
def Along (cond : S → L → Prop) : S → List L → Prop
  | _, [] => True
  | s, l :: labels => cond s l ∧ ∀ s', step s l = some s' → Along cond s' labels

/-- `Along` for a condition that computes. -/
def check (cond : S → L → Bool) : S → List L → Bool
  | _, [] => true
  | s, l :: labels => cond s l && (step s l).all fun s' => check cond s' labels

variable {step}

/-- A run that starts with a label takes its step, and the rest from there. -/
theorem run_cons_eq_some {s s' : S} {l : L} {labels : List L} :
    run step s (l :: labels) = some s' ↔
      ∃ t, step s l = some t ∧ run step t labels = some s' := by
  rw [run_cons, Option.bind_eq_some_iff]

/-- A condition that is checked along a run holds along it. -/
theorem along_of_check {cond : S → L → Bool} {s : S} {labels : List L}
    (h : check step cond s labels = true) : Along step (fun s l => cond s l = true) s labels := by
  induction labels generalizing s with
  | nil => trivial
  | cons l labels ih =>
      simp only [check, Bool.and_eq_true] at h
      refine ⟨h.1, fun s' hs' => ih ?_⟩
      have hrest := h.2
      rw [hs'] at hrest
      exact hrest

/-- A weaker condition holds along a run too. -/
theorem Along.mono {cond cond' : S → L → Prop} (h : ∀ s l, cond s l → cond' s l) {s : S}
    {labels : List L} (halong : Along step cond s labels) : Along step cond' s labels := by
  induction labels generalizing s with
  | nil => trivial
  | cons l labels ih => exact ⟨h s l halong.1, fun s' hs' => ih (halong.2 s' hs')⟩

/-- **Invariants.** What every admitted step preserves holds along every
admitted run. -/
theorem invariant_along {cond : S → L → Prop} {P : S → Prop}
    (hstep : ∀ s l s', P s → cond s l → step s l = some s' → P s')
    {s s' : S} {labels : List L} (hs : P s) (halong : Along step cond s labels)
    (hrun : run step s labels = some s') : P s' := by
  induction labels generalizing s with
  | nil =>
      obtain rfl : s = s' := by simpa using hrun
      exact hs
  | cons l labels ih =>
      obtain ⟨t, hl, hrun⟩ := run_cons_eq_some.mp hrun
      exact ih (hstep s l t hs halong.1 hl) (halong.2 t hl) hrun

/-- A condition on labels alone holds along every run of labels that meet it. -/
theorem along_of_forall {cond : L → Prop} {labels : List L} (h : ∀ l ∈ labels, cond l) (s : S) :
    Along step (fun _ l => cond l) s labels := by
  induction labels generalizing s with
  | nil => trivial
  | cons l labels ih =>
      exact ⟨h l (by simp), fun s' _ => ih (fun l' hl' => h l' (List.mem_cons_of_mem _ hl')) s'⟩

/-- **Simulation.** Where every admitted step of one system is matched by a step of the
other under the same label, every admitted run is. Either side admits on its own. -/
theorem simulation_along {T : Type*} {step' : T → L → Option T} {cond : S → L → Prop}
    {cond' : T → L → Prop} {R : S → T → Prop}
    (hstep : ∀ s t l s', R s t → cond s l → cond' t l → step s l = some s' →
      ∃ t', step' t l = some t' ∧ R s' t')
    {s s' : S} {t : T} {labels : List L} (hrel : R s t) (halong : Along step cond s labels)
    (halong' : Along step' cond' t labels) (hrun : run step s labels = some s') :
    ∃ t', run step' t labels = some t' ∧ R s' t' := by
  induction labels generalizing s t with
  | nil =>
      obtain rfl : s = s' := by simpa using hrun
      exact ⟨t, rfl, hrel⟩
  | cons l labels ih =>
      obtain ⟨u, hl, hrun⟩ := run_cons_eq_some.mp hrun
      obtain ⟨v, hv, huv⟩ := hstep s t l u hrel halong.1 halong'.1 hl
      obtain ⟨t', ht', hend⟩ := ih huv (halong.2 u hl) (halong'.2 v hv) hrun
      exact ⟨t', run_cons_eq_some.mpr ⟨v, hv, ht'⟩, hend⟩

theorem along_single {cond : S → L → Prop} {s : S} {l : L} (h : cond s l) :
    Along step cond s [l] := ⟨h, fun _ _ => trivial⟩

theorem along_true (s : S) (labels : List L) : Along step (fun _ _ => True) s labels :=
  along_of_forall (fun _ _ => trivial) s

/-- What every step preserves holds along every run. -/
theorem invariant {P : S → Prop}
    (hstep : ∀ s l s', P s → step s l = some s' → P s')
    {s s' : S} {labels : List L} (hs : P s) (hrun : run step s labels = some s') : P s' :=
  invariant_along (fun s l s' hs _ => hstep s l s' hs) hs (along_true s labels) hrun

/-! ## How often a value changes -/

section changes

variable {V : Type*} [DecidableEq V]

/-- The steps of a run that change a value. -/
def changes (step : S → L → Option S) (f : S → V) : S → List L → ℕ
  | _, [] => 0
  | s, l :: labels =>
      match step s l with
      | some s' => (if f s' = f s then 0 else 1) + changes step f s' labels
      | none => 0

/-- **One-way values.** A value that only ever goes from `a` to `b` has changed as
often as it shows: once where it was `a` and is `b`, and else never. -/
theorem changes_one_way {cond : S → L → Prop} {P : S → Prop} {f : S → V} {a b : V} (hab : a ≠ b)
    (hstep : ∀ s l s', P s → cond s l → step s l = some s' →
      P s' ∧ (f s' = f s ∨ (f s = a ∧ f s' = b)))
    {s s' : S} {labels : List L} (hs : P s) (halong : Along step cond s labels)
    (hrun : run step s labels = some s') :
    changes step f s labels + (if f s = b then 1 else 0) = if f s' = b then 1 else 0 := by
  -- along the run: of the two values, `f` has `a` before its change and `b` after it
  induction labels generalizing s with
  | nil =>
      obtain rfl : s = s' := by simpa using hrun
      simp [changes]
  | cons l labels ih =>
      obtain ⟨t, hl, hrun⟩ := run_cons_eq_some.mp hrun
      obtain ⟨ht, hmove⟩ := hstep s l t hs halong.1 hl
      have hrest := ih ht (halong.2 t hl) hrun
      rw [changes, hl]
      dsimp only
      rcases hmove with hsame | ⟨hbefore, hafter⟩
      · rw [if_pos hsame, ← hrest, hsame]
        omega
      · -- the step that takes it over: no other can follow
        rw [if_neg (show f t ≠ f s by rw [hbefore, hafter]; exact hab.symm),
          if_neg (show f s ≠ b by rw [hbefore]; exact hab)]
        rw [if_pos hafter] at hrest
        omega

end changes

/-! ## How long a run can be -/

section budgets

/-- The steps of a run that meet a condition. -/
def occurrences (step : S → L → Option S) (cond : S → L → Bool) : S → List L → ℕ
  | _, [] => 0
  | s, l :: labels =>
      match step s l with
      | some s' => (if cond s l then 1 else 0) + occurrences step cond s' labels
      | none => 0

/-- **Budgets.** Where every step costs one of what a state has left, except the
exempt ones, which may add `refund` to it, a run is as long as its budget and the
exempt steps on it allow. -/
theorem length_le_of_budget {P : S → Prop} {exempt : S → L → Bool} (budget : S → ℕ) (refund : ℕ)
    (hstep : ∀ s l s', P s → step s l = some s' → P s' ∧
      (if exempt s l then budget s' ≤ budget s + refund else budget s' < budget s))
    {s s' : S} {labels : List L} (hs : P s) (hrun : run step s labels = some s') :
    labels.length + budget s' ≤ budget s + (refund + 1) * occurrences step exempt s labels := by
  induction labels generalizing s with
  | nil =>
      obtain rfl : s = s' := by simpa using hrun
      simp [occurrences]
  | cons l labels ih =>
      obtain ⟨t, hl, hrun⟩ := run_cons_eq_some.mp hrun
      obtain ⟨ht, hcost⟩ := hstep s l t hs hl
      have hrest := ih ht hrun
      rw [occurrences, hl, List.length_cons]
      dsimp only
      -- an exempt step may raise the budget by the refund, any other lowers it
      by_cases hexempt : exempt s l = true
      · rw [if_pos hexempt] at hcost ⊢
        rw [Nat.mul_add]
        omega
      · rw [if_neg hexempt] at hcost ⊢
        rw [Nat.zero_add]
        omega

/-- Where the steps that meet a condition each cost one, and no others add to the budget,
there are no more of them than the budget. -/
theorem occurrences_le_of_budget {P : S → Prop} {cond : S → L → Bool} (budget : S → ℕ)
    (hstep : ∀ s l s', P s → step s l = some s' → P s' ∧
      (if cond s l then budget s' < budget s else budget s' ≤ budget s))
    {s s' : S} {labels : List L} (hs : P s) (hrun : run step s labels = some s') :
    occurrences step cond s labels + budget s' ≤ budget s := by
  induction labels generalizing s with
  | nil =>
      obtain rfl : s = s' := by simpa using hrun
      simp [occurrences]
  | cons l labels ih =>
      obtain ⟨t, hl, hrun⟩ := run_cons_eq_some.mp hrun
      obtain ⟨ht, hcost⟩ := hstep s l t hs hl
      have hrest := ih ht hrun
      rw [occurrences, hl]
      dsimp only
      by_cases hcond : cond s l = true
      · rw [if_pos hcond] at hcost ⊢
        omega
      · rw [if_neg hcond] at hcost ⊢
        omega

end budgets

/-! ## Reaching a state -/

variable (step)

/-- Some run leads from one state to the other. -/
def Reaches (s s' : S) : Prop := ∃ labels, run step s labels = some s'

variable {step}

theorem Reaches.refl (s : S) : Reaches step s s := ⟨[], rfl⟩

/-- Reaching is transitive. -/
theorem Reaches.trans {s s' s'' : S} (h : Reaches step s s') (h' : Reaches step s' s'') :
    Reaches step s s'' := by
  obtain ⟨before, hbefore⟩ := h
  obtain ⟨after, hafter⟩ := h'
  exact ⟨before ++ after, run_trans step hbefore hafter⟩

/-- What is reached by some of the steps is reached. -/
theorem Reaches.mono {step' : S → L → Option S} {s s' : S}
    (hsome : ∀ s l s', step s l = some s' → step' s l = some s') (h : Reaches step s s') :
    Reaches step' s s' := by
  obtain ⟨labels, hrun⟩ := h
  refine ⟨labels, ?_⟩
  induction labels generalizing s with
  | nil => exact hrun
  | cons l labels ih =>
      obtain ⟨t, hl, hrun⟩ := run_cons_eq_some.mp hrun
      exact run_cons_eq_some.mpr ⟨t, hsome s l t hl, ih hrun⟩

theorem Reaches.single {s s' : S} (l : L) (h : step s l = some s') : Reaches step s s' :=
  ⟨[l], by rw [run_cons, h]; rfl⟩

/-- **Ranking.** Where every state of positive rank can be taken to one of
smaller rank, one of rank zero can be reached. -/
theorem reaches_of_rank {P : S → Prop} (rank : S → ℕ)
    (hstep : ∀ s, P s → rank s ≠ 0 → ∃ s', Reaches step s s' ∧ P s' ∧ rank s' < rank s)
    {s : S} (hs : P s) : ∃ s', Reaches step s s' ∧ P s' ∧ rank s' = 0 := by
  induction hrank : rank s using Nat.strongRecOn generalizing s with
  | ind r ih =>
      by_cases hzero : rank s = 0
      · exact ⟨s, .refl s, hs, hzero⟩
      · obtain ⟨t, hreach, ht, hlt⟩ := hstep s hs hzero
        obtain ⟨s', hreach', hs'⟩ := ih (rank t) (hrank ▸ hlt) ht rfl
        exact ⟨s', hreach.trans hreach', hs'⟩

end SnapshotEtl.Lib.Lts
