/-
A counting semaphore around some of the steps of a system.

A thread that has come to a guarded step takes a permit, makes the step, and gives the
permit back; a thread that is lost on the way gives it back as well. In whatever order
the threads are let through, the permits are conserved, and what the guarded system does
the bare one could have done. For its progress one remark is enough: where a thread holds
a permit it is that thread which goes on, and where none does every permit is free.
-/
import SnapshotEtl.Lib.Lts
import Mathlib.Data.Fintype.Card

set_option autoImplicit false

namespace SnapshotEtl.Lib

variable {S L T : Type*}

/-- `guards l` is the thread that needs a permit for the step `l`, `frees l` the one that
has none any more after it. -/
structure Gate (S L T : Type*) where
  capacity : ℕ
  at_gate : S → T → Bool
  guards : L → Option T
  frees : L → Option T

/-- A guarded step is made at the gate and leaves it, and nothing else takes a thread
away from there that does not give up its permit. -/
structure Gate.Lawful (G : Gate S L T) (step : S → L → Option S) : Prop where
  guarded : ∀ {s l s' t}, step s l = some s' → G.guards l = some t → G.at_gate s t = true
  freed : ∀ {l t}, G.guards l = some t → G.frees l = some t
  stays : ∀ {s l s' t}, step s l = some s' → G.at_gate s t = true → G.frees l ≠ some t →
    G.at_gate s' t = true

/-- A gate is lawful for fewer steps too. -/
theorem Gate.Lawful.mono {G : Gate S L T} {step step' : S → L → Option S}
    (h : G.Lawful step) (hsome : ∀ s l s', step' s l = some s' → step s l = some s') :
    G.Lawful step' where
  guarded hstep := h.guarded (hsome _ _ _ hstep)
  freed := h.freed
  stays hstep := h.stays (hsome _ _ _ hstep)

inductive GateLabel (L T : Type*)
  | acquire (t : T)
  | base (l : L)

/-- The label of the bare system. -/
def GateLabel.base? : GateLabel L T → Option L
  | acquire _ => none
  | base l => some l

structure Gated (S T : Type*) where
  state : S
  permits : ℕ
  holders : Finset T

namespace Gated

variable {G : Gate S L T} {bare : S → L → Option S} {g g' : Gated S T}

def init (G : Gate S L T) (s : S) : Gated S T := ⟨s, G.capacity, ∅⟩

variable [DecidableEq T]

/-- The state after a step with which `freed` gives up its permit, if it has one. -/
def after (g : Gated S T) (freed : Option T) (state : S) : Gated S T :=
  match freed with
  | none => { g with state }
  | some t =>
      if t ∈ g.holders then ⟨state, g.permits + 1, g.holders.erase t⟩ else { g with state }

variable (G bare) in
def step (g : Gated S T) : GateLabel L T → Option (Gated S T)
  | .acquire t =>
      if 0 < g.permits ∧ G.at_gate g.state t ∧ t ∉ g.holders then
        some { g with permits := g.permits - 1, holders := insert t g.holders }
      else none
  | .base l =>
      if ∀ t ∈ G.guards l, t ∈ g.holders then (bare g.state l).map (g.after (G.frees l))
      else none

/-- Freeing a permit leaves the state. -/
theorem state_after (g : Gated S T) (freed : Option T) (s : S) : (g.after freed s).state = s := by
  unfold after
  split
  · rfl
  · split <;> rfl

/-- Who holds a permit after one is freed. -/
theorem mem_holders_after {g : Gated S T} {freed : Option T} {s : S} {t : T} :
    t ∈ (g.after freed s).holders ↔ t ∈ g.holders ∧ freed ≠ some t := by
  unfold after
  split
  · simp
  · next u =>
    split
    · simp [and_comm, eq_comm]
    · next hu =>
      refine ⟨fun ht => ⟨ht, ?_⟩, And.left⟩
      rintro hut
      obtain rfl := Option.some.inj hut
      exact hu ht

/-- A thread at the gate takes a permit while there is one. -/
theorem step_acquire {t : T} (h : g.step G bare (.acquire t) = some g') :
    (0 < g.permits ∧ G.at_gate g.state t = true ∧ t ∉ g.holders) ∧
      g' = { g with permits := g.permits - 1, holders := insert t g.holders } := by
  obtain ⟨hfree, h⟩ := Option.ite_none_right_eq_some.mp h
  exact ⟨hfree, (Option.some.inj h).symm⟩

/-- A step of the bare system needs the permits that guard it. -/
theorem step_base {l : L} (h : g.step G bare (.base l) = some g') :
    (∀ t ∈ G.guards l, t ∈ g.holders) ∧
      ∃ s', bare g.state l = some s' ∧ g' = g.after (G.frees l) s' := by
  obtain ⟨hheld, h⟩ := Option.ite_none_right_eq_some.mp h
  obtain ⟨s', hs', rfl⟩ := Option.map_eq_some_iff.mp h
  exact ⟨hheld, s', hs', rfl⟩

/-! ## Permits -/

/-- Every permit is free or held by a thread that is at the gate. -/
structure Conserved (G : Gate S L T) (g : Gated S T) : Prop where
  total : g.permits + g.holders.card = G.capacity
  at_gate : ∀ t ∈ g.holders, G.at_gate g.state t = true

omit [DecidableEq T] in
/-- At the start all permits are there. -/
theorem conserved_init (s : S) : Conserved G (init G s) where
  total := by simp [init]
  at_gate t ht := by simp [init] at ht

/-- Freeing a permit conserves the number of permits. -/
theorem total_after (g : Gated S T) (freed : Option T) (s : S) :
    (g.after freed s).permits + (g.after freed s).holders.card = g.permits + g.holders.card := by
  unfold after
  split
  · rfl
  · next t =>
    split
    · next ht =>
      have hcard := Finset.card_erase_add_one ht
      change g.permits + 1 + (g.holders.erase t).card = _
      omega
    · rfl

/-- One step conserves the number of permits. -/
theorem Conserved.step (hG : G.Lawful bare) (hg : Conserved G g) {l : GateLabel L T}
    (h : g.step G bare l = some g') : Conserved G g' := by
  cases l with
  | acquire t =>
      obtain ⟨⟨hpermits, hgate, hnew⟩, rfl⟩ := step_acquire h
      refine ⟨?_, fun u hu => ?_⟩
      · have htotal := hg.total
        rw [Finset.card_insert_of_notMem hnew]
        change g.permits - 1 + _ = _
        omega
      · rcases Finset.mem_insert.mp hu with rfl | hu
        · exact hgate
        · exact hg.at_gate u hu
  | base l =>
      obtain ⟨-, s', hs', rfl⟩ := step_base h
      refine ⟨(total_after g _ s').trans hg.total, fun t ht => ?_⟩
      obtain ⟨ht, hfreed⟩ := mem_holders_after.mp ht
      rw [state_after]
      exact hG.stays hs' (hg.at_gate t ht) hfreed

/-- So does a run. -/
theorem Conserved.run (hG : G.Lawful bare) {s : S} {labels : List (GateLabel L T)}
    (hrun : Lts.run (Gated.step G bare) (init G s) labels = some g) : Conserved G g :=
  Lts.invariant (fun _ _ _ hg h => hg.step hG h) (conserved_init s) hrun

omit [DecidableEq T] in
/-- **Nobody waits** where there is a permit for every thread. -/
theorem Conserved.free [Fintype T] (hg : Conserved G g) (hcapacity : Fintype.card T ≤ G.capacity)
    {t : T} (ht : t ∉ g.holders) : 0 < g.permits := by
  have hlt : g.holders.card < Fintype.card T :=
    Finset.card_lt_univ_of_notMem ht
  have htotal := hg.total
  omega

/-! ## The bare system -/

/-- **What the guarded system does the bare one could have done.** -/
theorem run_base {labels : List (GateLabel L T)}
    (hrun : Lts.run (Gated.step G bare) g labels = some g') :
    Lts.run bare g.state (labels.filterMap GateLabel.base?) = some g'.state := by
  induction labels generalizing g with
  | nil =>
      obtain rfl := Option.some.inj hrun
      rfl
  | cons l labels ih =>
      obtain ⟨g₁, hstep, hrun⟩ := Lts.run_cons_eq_some.mp hrun
      have hrest := ih hrun
      cases l with
      | acquire t =>
          obtain ⟨-, rfl⟩ := step_acquire hstep
          exact hrest
      | base l =>
          obtain ⟨-, s', hs', rfl⟩ := step_base hstep
          rw [state_after] at hrest
          change Lts.run bare g.state (l :: labels.filterMap GateLabel.base?) = _
          exact Lts.run_cons_eq_some.mpr ⟨s', hs', hrest⟩

/-- What the gated system reaches, the bare one reaches. -/
theorem reaches_base (h : Lts.Reaches (Gated.step G bare) g g') :
    Lts.Reaches bare g.state g'.state := by
  obtain ⟨labels, hrun⟩ := h
  exact ⟨_, run_base hrun⟩

/-- A step that needs no permit, or has one. -/
theorem step_base_of_held {l : L} {s' : S} (hheld : ∀ t ∈ G.guards l, t ∈ g.holders)
    (hs' : bare g.state l = some s') :
    g.step G bare (.base l) = some (g.after (G.frees l) s') := by
  rw [Gated.step, if_pos hheld, hs']
  rfl

/-- **Ranking through a gate.** Where every state of positive rank has a step, every step
takes its rank down and whoever is at the gate can go through, the guarded system comes
to rank zero. -/
theorem reaches_of_rank {P : S → Prop} (rank : S → ℕ) (hG : G.Lawful bare)
    (hcapacity : 0 < G.capacity)
    (hpaid : ∀ s l s', P s → rank s ≠ 0 → bare s l = some s' → P s' ∧ rank s' < rank s)
    (hmoves : ∀ s, P s → rank s ≠ 0 → ∃ l s', bare s l = some s')
    (hpasses : ∀ s t, P s → G.at_gate s t = true →
      ∃ l s', G.guards l = some t ∧ bare s l = some s')
    (hg : Conserved G g) (hP : P g.state) :
    ∃ g', Lts.Reaches (Gated.step G bare) g g' ∧ Conserved G g' ∧ P g'.state ∧
      rank g'.state = 0 := by
  have hstep : ∀ g : Gated S T, Conserved G g ∧ P g.state → rank g.state ≠ 0 →
      ∃ g', Lts.Reaches (Gated.step G bare) g g' ∧ (Conserved G g' ∧ P g'.state) ∧
        rank g'.state < rank g.state := by
    rintro g ⟨hg, hP⟩ hrank
    -- a step of the bare system that may be made, with the permit taken before it
    have hgo : ∀ (g₁ : Gated S T) (l : L) (s' : S), Lts.Reaches (Gated.step G bare) g g₁ →
        Conserved G g₁ → g₁.state = g.state → (∀ t ∈ G.guards l, t ∈ g₁.holders) →
        bare g.state l = some s' →
        ∃ g', Lts.Reaches (Gated.step G bare) g g' ∧ (Conserved G g' ∧ P g'.state) ∧
          rank g'.state < rank g.state := by
      intro g₁ l s' hreach hg₁ hsame hheld hs'
      obtain ⟨hP', hlt⟩ := hpaid g.state l s' hP hrank hs'
      have hone := step_base_of_held hheld (hsame ▸ hs')
      refine ⟨_, hreach.trans (.single _ hone), ⟨hg₁.step hG hone, ?_⟩, ?_⟩
      · rwa [state_after]
      · rwa [state_after]
    rcases g.holders.eq_empty_or_nonempty with hnone | ⟨t, ht⟩
    · obtain ⟨l, s', hs'⟩ := hmoves g.state hP hrank
      cases hguards : G.guards l with
      | none => exact hgo g l s' (.refl g) hg rfl (by simp [hguards]) hs'
      | some t =>
          have hpermits : 0 < g.permits := by
            have htotal := hg.total
            rw [hnone, Finset.card_empty] at htotal
            omega
          have hacquire : g.step G bare (.acquire t)
              = some { g with permits := g.permits - 1, holders := insert t g.holders } :=
            if_pos ⟨hpermits, hG.guarded hs' hguards, by simp [hnone]⟩
          exact hgo _ l s' (.single _ hacquire) (hg.step hG hacquire) rfl
            (by simp [hguards]) hs'
    · obtain ⟨l, s', hguards, hs'⟩ := hpasses g.state t hP (hg.at_gate t ht)
      exact hgo g l s' (.refl g) hg rfl (by simpa [hguards] using ht) hs'
  obtain ⟨g', hreach, ⟨hg', hP'⟩, hzero⟩ :=
    Lts.reaches_of_rank (fun g : Gated S T => rank g.state) hstep ⟨hg, hP⟩
  exact ⟨g', hreach, hg', hP', hzero⟩

end Gated

end SnapshotEtl.Lib
