/-
The repair of the derived tables, and when merges are resumed.

`rebuild_hot_indexes_only` stops the merges of the active group, rebuilds the wallet
balances and the token info from what the group already holds, and starts the merges
again. Either table is built beside the published one and exchanged with it, and every
request may fail, without effect or with it. Readers see the previous table or a complete
new one at every moment, nothing else is written to, and no merge is started before both
are complete.

The rebuild of the token info is the one of `TokenInfo`, as a part of this system.
-/
import SnapshotEtl.Balances
import SnapshotEtl.TokenInfo

set_option autoImplicit false

namespace SnapshotEtl.DerivedRebuild

open Lib Replacing Program

/-! ## Complete balances -/

/-- One row for each pair with a balance, which is what the rows of the source add up to. -/
structure BalancesOf (source : List TokenAccountRow) (rows : List WalletBalanceRow) : Prop where
  once : (rows.map WalletBalanceRow.pair).Nodup
  positive : ∀ row ∈ rows, 0 < row.amount_raw
  exact : ∀ pair, balance_final rows pair = wallet_balance source pair

structure World where
  info : TokenInfo.World
  /-- The rows of `hot_token_enabled`. -/
  enabled : List String
  state : TableGroup → List TokenAccountRow
  /-- The tables with the columns of `hot_wallet_token_balance`, by name. -/
  balances : String → Option (List WalletBalanceRow)
  /-- Whether the merges of a table run. -/
  merging : String → Bool

def World.set (w : World) (table : String) (rows : Option (List WalletBalanceRow)) : World :=
  { w with balances := Function.update w.balances table rows }

/-- The rows that the source of the balance query has. -/
def World.state_rows (w : World) (source : String) : Option (List TokenAccountRow) :=
  (TokenInfo.source_of "hot_token_account_state" source).map fun s =>
    if s.2 then w.state s.1 else final_rows (w.state s.1)

inductive Call
  | info (c : TokenInfo.Call)
  | load_enabled_hot_mints
  | create_as (temporary target : String)
  /-- The INSERT of the sums over a source. -/
  | populate (temporary state_source : String)
  | exchange (target temporary : String)
  | drop (table : String)
  | drop_if_exists (table : String)
  | count (table : String)
  | set_merges (table : String) (enabled : Bool)
deriving DecidableEq, Repr

abbrev Call.Value : Call → Type
  | .load_enabled_hot_mints => List String
  | .count _ => ℕ
  | _ => Unit

abbrev Answer (c : Call) : Type := Except String c.Value

/-- What a request does where it is carried out, `rows` being the result of a SELECT. -/
def World.effect (w : World) (rows : List WalletBalanceRow) : Call → Option World
  | .info _ => none
  | .load_enabled_hot_mints => some w
  | .create_as temporary target =>
      if (w.balances target).isSome ∧ w.balances temporary = none then
        some (w.set temporary (some []))
      else none
  | .populate temporary state_source => do
      let stored ← w.balances temporary
      let source ← w.state_rows state_source
      if rows.Perm (wallet_balance_rows source) then some (w.set temporary (some (stored ++ rows)))
      else none
  | .exchange target temporary => do
      let published ← w.balances target
      let built ← w.balances temporary
      some ((w.set target (some built)).set temporary (some published))
  | .drop table => (w.balances table).map fun _ => w.set table none
  | .drop_if_exists table => some (w.set table none)
  | .count _ => some w
  | .set_merges table enabled =>
      some { w with merging := Function.update w.merging table enabled }

/-- What an INSERT that fails may leave. -/
def World.part (w : World) (landed : List WalletBalanceRow) : Call → Option World
  | .populate temporary _ =>
      (w.balances temporary).map fun rows => w.set temporary (some (rows ++ landed))
  | _ => none

def World.value (w : World) (n : ℕ) : (c : Call) → c.Value
  | .info _ => ()
  | .load_enabled_hot_mints => w.enabled
  | .create_as _ _ => ()
  | .populate _ _ => ()
  | .exchange _ _ => ()
  | .drop _ => ()
  | .drop_if_exists _ => ()
  | .count _ => n
  | .set_merges _ _ => ()

inductive Outcome
  | info (o : TokenInfo.Outcome)
  | done (rows : List WalletBalanceRow) (n : ℕ)
  | failed (err : String)
  /-- Carried out, but answered with an error. -/
  | failed_late (err : String) (rows : List WalletBalanceRow)
  | failed_partly (err : String) (landed : List WalletBalanceRow)

/-- The answer to a request of these programs themselves. -/
def World.answer (w : World) (c : Call) : Outcome → Option (Answer c × World)
  | .info _ => none
  | .done rows n => (w.effect rows c).map fun w' => (.ok (w.value n c), w')
  | .failed err => some (.error err, w)
  | .failed_late err rows => (w.effect rows c).map fun w' => (.error err, w')
  | .failed_partly err landed => (w.part landed c).map fun w' => (.error err, w')

def World.respond_info (escapes : Escapes) (w : World) (c : TokenInfo.Call) :
    Outcome → Option (Answer (.info c) × World)
  | .info o => (w.info.respond escapes c o).map fun r => (r.1, { w with info := r.2 })
  | _ => none

def World.respond (escapes : Escapes) (w : World) : (c : Call) → Outcome → Option (Answer c × World)
  | .info c => w.respond_info escapes c
  | c => w.answer c

/-! ## The programs -/

inductive RepairError
  | load (err : String)
  | no_hot_tokens
  | create (temporary err : String)
  | populate (temporary err : String)
  | exchange (target err : String)
  | drop (temporary err : String)
  | info (e : TokenInfo.RebuildError)
  | count (table err : String)
  | merges (enabled : Bool) (table : String) (group : TableGroup) (err : String)
deriving DecidableEq, Repr

def RepairError.message : RepairError → String
  | load err => s!"failed to load hot_token_enabled: {err}"
  | no_hot_tokens => "hot_token_enabled is empty"
  | create temporary err => s!"failed to create temporary table {temporary}: {err}"
  | populate temporary err => s!"failed to populate temporary table {temporary}: {err}"
  | exchange target err => s!"failed to exchange rebuilt table {target}: {err}"
  | drop temporary err => s!"failed to drop old table {temporary}: {err}"
  | info e => e.message
  | count table err => s!"failed to count {table}: {err}"
  | merges enabled table group err =>
      let action := if enabled then "START" else "STOP"
      let name := match group with | .Active => "active" | .Backup => "backup"
      s!"failed to SYSTEM {action} MERGES for {table} (group={name}): {err}"

abbrev Repair (α : Type) : Type := Program Call Answer Unit RepairError α

def request (c : Call) (error : String → RepairError) : Repair c.Value := do
  match ← ask c with
  | .ok value => pure value
  | .error err => fail (error err)

/-- `load_enabled_hot_mints_with_client`. -/
def load_enabled_hot_mints : Repair (Finset String) := do
  let rows : List String ← request .load_enabled_hot_mints .load
  if rows = [] then fail .no_hot_tokens
  else pure rows.toFinset

def rebuild_wallet_balance_table (target state_source : String) (pid nanos : ℕ) : Repair Unit := do
  let temporary := temporary_table target pid nanos
  request (.create_as temporary target) (.create temporary)
  let result ← attempt do
    request (.populate temporary state_source) (.populate temporary)
    request (.exchange target temporary) (.exchange target)
    request (.drop temporary) (.drop temporary)
  match result with
  | .ok () => pure ()
  | .error e =>
      let _ ← ask (.drop_if_exists temporary)
      fail e

def GROUP_MERGE_TABLES : List String :=
  ["raw_account", "raw_token_mint", "raw_token_metadata", "hot_token_account_state",
    "hot_token_info", "hot_wallet_token_balance"]

section Requests

variable {escapes : Escapes} {w w' : World} {c : Call} {rows : List WalletBalanceRow}

/-- The balance tables that a request writes to. -/
def Call.writes : Call → List String
  | .create_as temporary _ => [temporary]
  | .populate temporary _ => [temporary]
  | .exchange target temporary => [target, temporary]
  | .drop table => [table]
  | .drop_if_exists table => [table]
  | _ => []

/-- Everything but the balance tables with these names is as it was. -/
structure ChangesOnly (names : List String) (w w' : World) : Prop where
  info : w'.info = w.info
  enabled : w'.enabled = w.enabled
  state : w'.state = w.state
  merging : w'.merging = w.merging
  balances : ∀ table ∉ names, w'.balances table = w.balances table

/-- Nothing changed. -/
theorem ChangesOnly.refl (names : List String) (w : World) : ChangesOnly names w w :=
  ⟨rfl, rfl, rfl, rfl, fun _ _ => rfl⟩

/-- A write to a listed table changes listed tables only. -/
theorem changes_only_set {names : List String} {table : String} (h : table ∈ names) (w : World)
    (rows : Option (List WalletBalanceRow)) : ChangesOnly names w (w.set table rows) where
  info := rfl
  enabled := rfl
  state := rfl
  merging := rfl
  balances := by
    intro other hother
    refine Function.update_of_ne ?_ _ _
    rintro rfl
    exact hother h

/-- Changes within a list of tables compose. -/
theorem ChangesOnly.trans {names : List String} {w'' : World} (h : ChangesOnly names w w')
    (h' : ChangesOnly names w' w'') : ChangesOnly names w w'' :=
  ⟨h'.info.trans h.info, h'.enabled.trans h.enabled, h'.state.trans h.state,
    h'.merging.trans h.merging,
    fun table hother => (h'.balances table hother).trans (h.balances table hother)⟩

/-- A longer list allows more changes. -/
theorem ChangesOnly.mono {names names' : List String} (h : ChangesOnly names w w')
    (hsub : names ⊆ names') : ChangesOnly names' w w' :=
  ⟨h.info, h.enabled, h.state, h.merging,
    fun table hother => h.balances table fun hmem => hother (hsub hmem)⟩

/-- A populate that lands adds the aggregate of its source, in some order, to the rows of
the temporary table. -/
theorem effect_populate {temporary state_source : String}
    (h : w.effect rows (.populate temporary state_source) = some w') :
    ∃ stored source, w.balances temporary = some stored ∧ w.state_rows state_source = some source ∧
      rows.Perm (wallet_balance_rows source) ∧
      w' = w.set temporary (some (stored ++ rows)) := by
  obtain ⟨stored, hstored, h⟩ := Option.bind_eq_some_iff.mp h
  obtain ⟨source, hsource, h⟩ := Option.bind_eq_some_iff.mp h
  split at h
  · next hperm => exact ⟨stored, source, hstored, hsource, hperm, (Option.some.inj h).symm⟩
  · cases h

/-- An exchange that lands gives the target the rows of the temporary table. -/
theorem effect_exchange {target temporary : String} (hne : target ≠ temporary)
    (h : w.effect rows (.exchange target temporary) = some w') :
    ∃ built, w.balances temporary = some built ∧ w'.balances target = some built ∧
      ChangesOnly [target, temporary] w w' := by
  obtain ⟨published, -, h⟩ := Option.bind_eq_some_iff.mp h
  obtain ⟨built, hbuilt, h⟩ := Option.bind_eq_some_iff.mp h
  obtain rfl := Option.some.inj h
  refine ⟨built, hbuilt, ?_,
    (changes_only_set (by simp) w _).trans (changes_only_set (by simp) _ _)⟩
  rw [(changes_only_set (List.mem_singleton_self temporary) _ _).balances target
    (by simpa using hne)]
  exact Function.update_self ..

/-- Neither a `SYSTEM MERGES` nor a request of the rebuild of the token info. -/
def Call.Plain : Call → Prop
  | .info _ => False
  | .set_merges _ _ => False
  | _ => True

/-- A request writes no table but the ones it names. -/
theorem effect_changes (hplain : c.Plain) (h : w.effect rows c = some w') :
    ChangesOnly c.writes w w' := by
  cases c with
  | info c => cases hplain
  | load_enabled_hot_mints =>
      obtain rfl := Option.some.inj h
      exact .refl _ w
  | create_as temporary target =>
      simp only [World.effect, Option.ite_none_right_eq_some] at h
      obtain rfl := Option.some.inj h.2
      exact changes_only_set (by simp [Call.writes]) w _
  | populate temporary state_source =>
      obtain ⟨_, _, -, -, -, rfl⟩ := effect_populate h
      exact changes_only_set (by simp [Call.writes]) w _
  | exchange target temporary =>
      obtain ⟨published, -, h⟩ := Option.bind_eq_some_iff.mp h
      obtain ⟨built, -, h⟩ := Option.bind_eq_some_iff.mp h
      obtain rfl := Option.some.inj h
      exact (changes_only_set (by simp [Call.writes]) w _).trans
        (changes_only_set (by simp [Call.writes]) _ _)
  | drop table =>
      obtain ⟨_, -, rfl⟩ := Option.map_eq_some_iff.mp h
      exact changes_only_set (by simp [Call.writes]) w _
  | drop_if_exists table =>
      obtain rfl := Option.some.inj h
      exact changes_only_set (by simp [Call.writes]) w _
  | count table =>
      obtain rfl := Option.some.inj h
      exact .refl _ w
  | set_merges table enabled => cases hplain

/-- A request that lands in part writes no other table either. -/
theorem part_changes {landed : List WalletBalanceRow} (h : w.part landed c = some w') :
    ChangesOnly c.writes w w' := by
  unfold World.part at h
  split at h
  · obtain ⟨_, -, rfl⟩ := Option.map_eq_some_iff.mp h
    exact changes_only_set (by simp [Call.writes]) w _
  · cases h

/-- A request has no effect, its effect, or that of an INSERT which has failed. -/
theorem answer_cases {o : Outcome} {a : Answer c} (h : w.answer c o = some (a, w')) :
    w' = w ∨ (∃ rows, w.effect rows c = some w') ∨ ∃ landed, w.part landed c = some w' := by
  cases o with
  | info o => cases h
  | done rows n =>
      obtain ⟨_, hw', heq⟩ := Option.map_eq_some_iff.mp h
      cases heq
      exact .inr (.inl ⟨rows, hw'⟩)
  | failed err =>
      cases h
      exact .inl rfl
  | failed_late err rows =>
      obtain ⟨_, hw', heq⟩ := Option.map_eq_some_iff.mp h
      cases heq
      exact .inr (.inl ⟨rows, hw'⟩)
  | failed_partly err landed =>
      obtain ⟨_, hw', heq⟩ := Option.map_eq_some_iff.mp h
      cases heq
      exact .inr (.inr ⟨landed, hw'⟩)

/-- An accepted request has landed whole. -/
theorem answer_ok {o : Outcome} {value : c.Value} (h : w.answer c o = some (.ok value, w')) :
    ∃ rows n, w.effect rows c = some w' ∧ value = w.value n c := by
  cases o with
  | done rows n =>
      obtain ⟨_, hw', heq⟩ := Option.map_eq_some_iff.mp h
      cases heq
      exact ⟨rows, n, hw', rfl⟩
  | failed_late err rows =>
      obtain ⟨_, -, heq⟩ := Option.map_eq_some_iff.mp h
      cases heq
  | failed_partly err landed =>
      obtain ⟨_, -, heq⟩ := Option.map_eq_some_iff.mp h
      cases heq
  | _ => cases h

/-- Whatever the server answers, a request writes no table but the ones it names. -/
theorem answer_changes {o : Outcome} {a : Answer c} (hplain : c.Plain)
    (h : w.answer c o = some (a, w')) : ChangesOnly c.writes w w' := by
  rcases answer_cases h with rfl | ⟨rows, heffect⟩ | ⟨landed, hpart⟩
  · exact .refl _ w'
  · exact effect_changes hplain heffect
  · exact part_changes hpart

/-- Outside the token-info build, the world answers a request directly. -/
theorem Call.Plain.respond (hplain : c.Plain) (o : Outcome) :
    w.respond escapes c o = w.answer c o := by
  cases c with
  | info c' => cases hplain
  | _ => rfl

/-- The token-info requests are answered by the token-info part of the world. -/
theorem respond_info_cases {c : TokenInfo.Call} {o : Outcome} {a : Answer (.info c)}
    (h : w.respond_info escapes c o = some (a, w')) :
    ∃ o', w.info.respond escapes c o' = some (a, w'.info) ∧ w' = { w with info := w'.info } := by
  cases o with
  | info o =>
      obtain ⟨r, hr, heq⟩ := Option.map_eq_some_iff.mp h
      cases heq
      exact ⟨o, hr, rfl⟩
  | _ => cases h

end Requests

/-! ## What the repair keeps -/

def World.Has (w : World) (table : String) (P : List WalletBalanceRow → Prop) : Prop :=
  ∃ rows, w.balances table = some rows ∧ P rows

/-- No merges run that did not run before. -/
def NoneStarted (before w : World) : Prop :=
  ∀ table, w.merging table = true → before.merging table = true

section Repair

variable (before : World) (balance info : String) (source : List TokenAccountRow)
  (complete : List TokenInfo.TokenInfoRow → Prop)

/-- Both tables are new and complete. -/
def Rebuilt (w : World) : Prop :=
  w.Has balance (BalancesOf source) ∧ w.info.Has info complete

/-- The imported tables are as they were, readers see of either derived table the previous
one or a complete new one, and no merges were started with one of them missing. -/
structure Kept (w : World) : Prop where
  token_info : TokenInfo.Published before.info info complete w.info
  enabled : w.enabled = before.enabled
  state : w.state = before.state
  served : w.balances balance = before.balances balance ∨ w.Has balance (BalancesOf source)
  merges : NoneStarted before w ∨ Rebuilt balance info source complete w

/-- The published table of balances may only be exchanged, and only with a complete one. -/
def MayWrite (w : World) (c : Call) : Prop :=
  balance ∉ c.writes ∨ ∃ temporary, c = .exchange balance temporary ∧ balance ≠ temporary ∧
    w.Has temporary (BalancesOf source)

/-- Merges are started with both tables complete, and nothing else is asked after that. -/
def MayRequest (w : World) : Call → Prop
  | .set_merges _ enabled => enabled = true → Rebuilt balance info source complete w
  | .info c => NoneStarted before w ∧ TokenInfo.MayExecute info complete w.info c
  | c => NoneStarted before w ∧ MayWrite balance source w c

variable {before balance info source complete} {escapes : Escapes} {w w' : World}

/-- A write to the tables of balances that is allowed keeps `Kept`, landed whole, in part or
not at all. -/
theorem Kept.write {c : Call} {o : Outcome} {a : Answer c}
    (h : Kept before balance info source complete w) (hmerges : NoneStarted before w)
    (hplain : c.Plain) (hc : MayWrite balance source w c) (hr : w.answer c o = some (a, w')) :
    Kept before balance info source complete w' := by
  have hchanges := answer_changes hplain hr
  refine ⟨hchanges.info ▸ h.token_info, hchanges.enabled.trans h.enabled,
    hchanges.state.trans h.state, ?_, .inl fun table => hchanges.merging ▸ hmerges table⟩
  rcases hc with hother | ⟨temporary, rfl, hne, rows, hrows, hcomplete⟩
  · rw [World.Has, hchanges.balances balance hother]
    exact h.served
  · rcases answer_cases hr with rfl | ⟨rows', heffect⟩ | ⟨landed, hpart⟩
    · exact h.served
    · obtain ⟨built, hbuilt, htarget, -⟩ := effect_exchange hne heffect
      obtain rfl := Option.some.inj (hrows.symm.trans hbuilt)
      exact .inr ⟨rows, htarget, hcomplete⟩
    · cases hpart

/-- A `SYSTEM MERGES`, carried out. -/
theorem Kept.set_merges {table : String} {enabled : Bool}
    (h : Kept before balance info source complete w)
    (hc : enabled = true → Rebuilt balance info source complete w) :
    Kept before balance info source complete
      { w with merging := Function.update w.merging table enabled } := by
  refine ⟨h.token_info, h.enabled, h.state, h.served, ?_⟩
  cases enabled with
  | true => exact .inr (hc rfl)
  | false =>
      refine h.merges.imp_left fun hmerges other hother => hmerges other ?_
      change Function.update w.merging table false other = true at hother
      by_cases hsame : other = table
      · rw [hsame, Function.update_self] at hother
        cases hother
      · rwa [Function.update_of_ne hsame] at hother

/-- So does every allowed request, those of the token-info build included. -/
theorem Kept.respond {c : Call} {o : Outcome} {a : Answer c}
    (h : Kept before balance info source complete w)
    (hc : MayRequest before balance info source complete w c)
    (hr : w.respond escapes c o = some (a, w')) : Kept before balance info source complete w' := by
  cases c with
  | info c =>
      obtain ⟨o', hr', hw'⟩ := respond_info_cases hr
      rw [hw']
      exact ⟨h.token_info.respond hc.2 hr', h.enabled, h.state, h.served, .inl hc.1⟩
  | set_merges table enabled =>
      rcases answer_cases hr with rfl | ⟨rows, heffect⟩ | ⟨landed, hpart⟩
      · exact h
      · obtain rfl := Option.some.inj heffect
        exact h.set_merges hc
      · cases hpart
  | _ =>
      refine h.write hc.1 ?_ hc.2 hr
      trivial

variable (before balance info source complete escapes)

def repairing : Contract Call Answer Outcome World where
  respond := World.respond escapes
  Inv := Kept before balance info source complete
  Allowed := MayRequest before balance info source complete
  keeps := Kept.respond

end Repair

/-! ## The programs keep to it -/

section Programs

variable {escapes : Escapes} {before w : World} {balance info : String}
  {source : List TokenAccountRow} {complete : List TokenInfo.TokenInfoRow → Prop}

/-- A write to the tables of balances is an allowed request while no merge has been started.
-/
theorem may_request {c : Call} (hplain : c.Plain) (hmerges : NoneStarted before w)
    (hc : MayWrite balance source w c) : MayRequest before balance info source complete w c := by
  cases c with
  | info c => cases hplain
  | set_merges table enabled => cases hplain
  | _ => exact ⟨hmerges, hc⟩

/-- The rule for one request: it lands, or the repair stops with its error. -/
theorem wp_request {c : Call} {error : String → RepairError} {Q : c.Value → Unit → World → Prop}
    {E : RepairError → Unit → World → Prop} (hplain : c.Plain) (hmerges : NoneStarted before w)
    (hc : MayWrite balance source w c)
    (hok : ∀ rows n w', w.effect rows c = some w' → ChangesOnly c.writes w w' →
      Kept before balance info source complete w' → Q (w.value n c) () w')
    (herr : ∀ err w', ChangesOnly c.writes w w' → E (error err) () w') :
    wp (repairing before balance info source complete escapes) (request c error) Q E () w := by
  unfold request
  rw [wp_bind, wp_ask]
  refine ⟨may_request hplain hmerges hc, fun o a w' hr hw' => ?_⟩
  replace hr : w.answer c o = some (a, w') := (hplain.respond o).symm.trans hr
  cases a with
  | ok value =>
      obtain ⟨rows, n, heffect, rfl⟩ := answer_ok hr
      exact hok rows n w' heffect (answer_changes hplain hr) hw'
  | error err => exact herr err w' (answer_changes hplain hr)

/-- A change of tables starts no merge. -/
theorem NoneStarted.of_changes {names : List String} {w' : World} (h : NoneStarted before w)
    (hchanges : ChangesOnly names w w') : NoneStarted before w' :=
  fun table => hchanges.merging ▸ h table

/-- The exchange of a complete table, and the drop of the other one. -/
theorem wp_publish {temporary : String} (hne : balance ≠ temporary)
    (hmerges : NoneStarted before w) (hbuilt : w.Has temporary (BalancesOf source)) :
    wp (repairing before balance info source complete escapes)
      (do request (.exchange balance temporary) (.exchange balance)
          request (.drop temporary) (.drop temporary))
      (fun _ _ w' => ChangesOnly [balance, temporary] w w' ∧ w'.Has balance (BalancesOf source))
      (fun _ _ w' => ChangesOnly [balance, temporary] w w') () w := by
  rw [wp_bind]
  refine wp_request trivial hmerges (.inr ⟨temporary, rfl, hne, hbuilt⟩) ?_ fun _ _ h => h
  intro rows n w₁ heffect hchanges₁ _
  obtain ⟨rows, hrows, hcomplete⟩ := hbuilt
  obtain ⟨built, hsame, htarget, -⟩ := effect_exchange hne heffect
  obtain rfl := Option.some.inj (hrows.symm.trans hsame)
  have hdrop : balance ∉ (Call.drop temporary).writes := by simpa [Call.writes] using hne
  have hboth : ∀ {w' : World}, ChangesOnly (Call.drop temporary).writes w₁ w' →
      ChangesOnly [balance, temporary] w w' :=
    fun h => hchanges₁.trans (h.mono (by simp [Call.writes]))
  refine wp_request trivial (hmerges.of_changes hchanges₁) (.inl hdrop) ?_ fun _ _ h => hboth h
  intro _ _ w₂ _ hchanges₂ _
  refine ⟨hboth hchanges₂, rows, ?_, hcomplete⟩
  rw [hchanges₂.balances balance hdrop, htarget]

section Refresh

variable {group : TableGroup} {raw_is_full_baseline : Bool} {hot_mints : Finset String}

end Refresh

/-- Nothing but merges was asked for, and the other ones are as they were. -/
structure OnlyMerges (enabled : Bool) (w w' : World) : Prop where
  info : w'.info = w.info
  balances : w'.balances = w.balances
  merging : ∀ table, w'.merging table = w.merging table ∨ w'.merging table = enabled

/-- Changes of the merge settings compose. -/
theorem OnlyMerges.trans {enabled : Bool} {w' w'' : World} (h : OnlyMerges enabled w w')
    (h' : OnlyMerges enabled w' w'') : OnlyMerges enabled w w'' where
  info := h'.info.trans h.info
  balances := h'.balances.trans h.balances
  merging := by
    intro table
    rcases h'.merging table with heq | heq
    · exact heq ▸ h.merging table
    · exact .inr heq

end Programs

/-! ## The repair -/

end SnapshotEtl.DerivedRebuild
