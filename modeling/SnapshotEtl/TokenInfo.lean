/-
The token-info table of a group, and its rebuild.

`rebuild_token_info_table` fills a table of its own, batch after batch of the sorted
mints, and exchanges it with the published one when it is full. Each of its statements
may fail, without effect or with it, and a failed INSERT may leave any rows behind; what
readers see is the previous table until the exchange and the complete new one from then
on. The table is complete when it has one row for each frozen mint, which is what the
check before a cutover counts.

Nobody else writes to these tables while it runs.
-/
import SnapshotEtl.SqlText
import SnapshotEtl.HotIndexes
import SnapshotEtl.Lib.Joins
import SnapshotEtl.Lib.Prog
import Mathlib.Data.Finset.Sort

set_option autoImplicit false

namespace SnapshotEtl.TokenInfo

open Lib Replacing Quoting Program

/-! ## The rows -/

structure TokenInfoRow where
  mint : String
  decimals : ℕ
  supply_raw : ℕ
  name : String
  symbol : String
  uri : String
  token_standard : Option ℕ
  extensions : String
  mint_updated_slot : Slot
  metadata_updated_slot : Slot
  updated_slot : Slot
deriving DecidableEq

/-- The columns that `token_info_batch_insert_sql` selects of one joined row. -/
def token_info_row (mint : String) (m : Option TokenMintRow) (md : Option TokenMetadataRow) :
    TokenInfoRow where
  mint := mint
  decimals := m.elim 0 TokenMintRow.decimals
  supply_raw := m.elim 0 TokenMintRow.supply
  name := md.elim "" TokenMetadataRow.name
  symbol := md.elim "" TokenMetadataRow.symbol
  uri := md.elim "" TokenMetadataRow.uri
  token_standard := md.bind TokenMetadataRow.token_standard
  -- `ifNull(nullIf(md.extensions, ''), '[]')`
  extensions := (md.bind fun r => if r.extensions = "" then none else some r.extensions).getD "[]"
  mint_updated_slot := m.elim 0 TokenMintRow.updated_slot
  metadata_updated_slot := md.elim 0 TokenMetadataRow.updated_slot
  updated_slot := max (m.elim 0 TokenMintRow.updated_slot) (md.elim 0 TokenMetadataRow.updated_slot)

/-- What a row should say of its two sources: nothing of one that is missing, and the
slot of the later one. -/
structure Describes (row : TokenInfoRow) (m : Option TokenMintRow) (md : Option TokenMetadataRow) :
    Prop where
  no_mint : m = none → row.decimals = 0 ∧ row.supply_raw = 0 ∧ row.mint_updated_slot = 0
  of_mint : ∀ r, m = some r → row.decimals = r.decimals ∧ row.supply_raw = r.supply ∧
    row.mint_updated_slot = r.updated_slot
  no_metadata : md = none → row.name = "" ∧ row.symbol = "" ∧ row.uri = "" ∧
    row.token_standard = none ∧ row.extensions = "[]" ∧ row.metadata_updated_slot = 0
  of_metadata : ∀ r, md = some r → row.name = r.name ∧ row.symbol = r.symbol ∧ row.uri = r.uri ∧
    row.token_standard = r.token_standard ∧ (r.extensions ≠ "" → row.extensions = r.extensions) ∧
    (r.extensions = "" → row.extensions = "[]") ∧ row.metadata_updated_slot = r.updated_slot
  not_older : row.mint_updated_slot ≤ row.updated_slot ∧
    row.metadata_updated_slot ≤ row.updated_slot
  of_one : row.updated_slot = row.mint_updated_slot ∨ row.updated_slot = row.metadata_updated_slot

/-- The row the INSERT builds describes the mint and the metadata it was joined from. -/
theorem describes_token_info_row (mint : String) (m : Option TokenMintRow)
    (md : Option TokenMetadataRow) : Describes (token_info_row mint m md) m md where
  no_mint := by
    rintro rfl
    exact ⟨rfl, rfl, rfl⟩
  of_mint := by
    rintro r rfl
    exact ⟨rfl, rfl, rfl⟩
  no_metadata := by
    rintro rfl
    exact ⟨rfl, rfl, rfl, rfl, rfl, rfl⟩
  of_metadata := by
    rintro r rfl
    refine ⟨rfl, rfl, rfl, rfl, fun hne => ?_, fun hempty => ?_, rfl⟩
    · simp [token_info_row, hne]
    · simp [token_info_row, hempty]
  not_older := ⟨le_max_left _ _, le_max_right _ _⟩
  of_one := max_choice _ _

/-- A described row is as new as the newer of its two halves. -/
theorem Describes.updated_slot_eq {row : TokenInfoRow} {m : Option TokenMintRow}
    {md : Option TokenMetadataRow} (h : Describes row m md) :
    row.updated_slot = max row.mint_updated_slot row.metadata_updated_slot := by
  apply le_antisymm
  · rcases h.of_one with hone | hone
    · rw [hone]
      exact le_max_left _ _
    · rw [hone]
      exact le_max_right _ _
  · exact max_le h.not_older.1 h.not_older.2

/-! ## The sources -/

/-- `raw_token_mint`: `ReplacingMergeTree(updated_slot)` ordered by mint. -/
def token_mint_engine : Engine TokenMintRow String Slot where
  key row := row.mint
  version row := row.updated_slot

/-- The raw tables of both groups. -/
structure RawTables where
  raw_token_mint : TableGroup → List TokenMintRow
  raw_token_metadata : TableGroup → List TokenMetadataRow

/-- The rows that a source has: the stored ones, or what `FINAL` shows. -/
def source_rows {R : Type} (e : Engine R String Slot) (raw_is_full_baseline : Bool)
    (rows : List R) : List R :=
  if raw_is_full_baseline then rows else e.visible rows

/-- The table that a source names, and whether it has no `FINAL`. -/
def source_of (base source : String) : Option (TableGroup × Bool) :=
  [(.Active, true), (.Active, false), (.Backup, true), (.Backup, false)].find?
    fun s => raw_source s.1 base s.2 = source

def RawTables.token_mints (raw : RawTables) (source : String) : Option (List TokenMintRow) :=
  (source_of "raw_token_mint" source).map fun s =>
    source_rows token_mint_engine s.2 (raw.raw_token_mint s.1)

def RawTables.token_metadata (raw : RawTables) (source : String) :
    Option (List TokenMetadataRow) :=
  (source_of "raw_token_metadata" source).map fun s =>
    source_rows token_metadata_engine s.2 (raw.raw_token_metadata s.1)

/-- The mints a build reads: the stored rows of a full baseline, else those of FINAL. -/
theorem token_mints_raw_source (raw : RawTables) (group : TableGroup)
    (raw_is_full_baseline : Bool) :
    raw.token_mints (raw_source group "raw_token_mint" raw_is_full_baseline)
      = some (source_rows token_mint_engine raw_is_full_baseline (raw.raw_token_mint group)) := by
  have hsource : source_of "raw_token_mint"
      (raw_source group "raw_token_mint" raw_is_full_baseline)
      = some (group, raw_is_full_baseline) := by
    cases group <;> cases raw_is_full_baseline <;> decide
  rw [RawTables.token_mints, hsource, Option.map_some]

/-- The metadata a build reads, chosen the same way. -/
theorem token_metadata_raw_source (raw : RawTables) (group : TableGroup)
    (raw_is_full_baseline : Bool) :
    raw.token_metadata (raw_source group "raw_token_metadata" raw_is_full_baseline)
      = some (source_rows token_metadata_engine raw_is_full_baseline
        (raw.raw_token_metadata group)) := by
  have hsource : source_of "raw_token_metadata"
      (raw_source group "raw_token_metadata" raw_is_full_baseline)
      = some (group, raw_is_full_baseline) := by
    cases group <;> cases raw_is_full_baseline <;> decide
  rw [RawTables.token_metadata, hsource, Option.map_some]

/-! ## The array of a batch -/

def array_items : List (Token Char) → Option (List String)
  | [.string value] => some [String.ofList value]
  | .string value :: .symbol ',' :: rest =>
      (array_items rest).map fun values => String.ofList value :: values
  | _ => none

/-- The values of the array, as ClickHouse reads them. -/
def read_values (escapes : Escapes) (mint_values : String) : Option (List String) :=
  (tokens (clickhouse escapes) mint_values.toList).bind fun read =>
    if read = [] then some [] else array_items read

/-- The items of an array literal are read back from its tokens. -/
theorem array_items_string_tokens (value : String) (values : List String) :
    array_items (string_tokens (value :: values)) = some (value :: values) := by
  induction values generalizing value with
  | nil => simp [string_tokens, comma_separated, List.intercalate, array_items]
  | cons value' values ih =>
      have hcons : string_tokens (value :: value' :: values)
          = .string value.toList :: .symbol ',' :: string_tokens (value' :: values) := by
        simp [string_tokens, comma_separated, List.intercalate_cons_cons]
      rw [hcons, array_items, ih, Option.map_some, String.ofList_toList]

/-- Base58 mints are read back. -/
theorem read_values_sql_string_list {escapes : Escapes} {values : List String}
    (h : ∀ value ∈ values, Base58 value) :
    read_values escapes (sql_string_list values) = some values := by
  have hreads : Reads (clickhouse escapes) (Unquoted (clickhouse escapes))
      (sql_string_list values).toList (string_tokens values)
      (∀ value ∈ values, '\\' ∉ value.toList) := reads_sql_string_list values
  have htokens := (hreads.tokens_iff (by simp [Unquoted])).mpr fun value hvalue =>
    notMem_of_base58 (h value hvalue)
  rw [read_values, htokens, Option.bind_some]
  cases values with
  | nil => rfl
  | cons value values =>
      rw [array_items_string_tokens, if_neg]
      intro hnil
      have hitems := array_items_string_tokens value values
      rw [hnil] at hitems
      cases hitems

/-! ## The tables, and the statements on them -/

structure World where
  raw : RawTables
  /-- The tables with the columns of `hot_token_info`, by name. -/
  tables : String → Option (List TokenInfoRow)

def World.set (w : World) (table : String) (rows : Option (List TokenInfoRow)) : World :=
  { w with tables := Function.update w.tables table rows }

inductive Call
  | create_as (temporary target : String)
  /-- `token_info_batch_insert_sql`, with its four arguments. -/
  | insert (temporary mint_values mint_source metadata_source : String)
  | exchange (target temporary : String)
  | drop (table : String)
  | drop_if_exists (table : String)
deriving DecidableEq, Repr

/-- Without an error, or with this one. -/
abbrev Answer (_ : Call) : Type := Except String Unit

/-- A mint with what the first join found of it, and with what the second one did. -/
abbrev Joined : Type := (String × Option TokenMintRow) × Option TokenMetadataRow

def Joined.row (j : Joined) : TokenInfoRow := token_info_row j.1.1 j.1.2 j.2

/-- The two joins of the SELECT, the second one on the result of the first. -/
structure Selects (mints : List String) (mint_rows : List TokenMintRow)
    (metadata_rows : List TokenMetadataRow) (joined : List Joined) : Prop where
  m : LeftAnyJoin id TokenMintRow.mint mints (mint_rows.filter fun r => r.mint ∈ mints)
    (joined.map Prod.fst)
  md : LeftAnyJoin Prod.fst TokenMetadataRow.mint (joined.map Prod.fst)
    (metadata_rows.filter fun r => r.mint ∈ mints) joined

instance (mints : List String) (mint_rows : List TokenMintRow)
    (metadata_rows : List TokenMetadataRow) :
    DecidablePred (Selects mints mint_rows metadata_rows) := fun joined =>
  decidable_of_iff (LeftAnyJoin id TokenMintRow.mint mints
        (mint_rows.filter fun r => r.mint ∈ mints) (joined.map Prod.fst) ∧
      LeftAnyJoin Prod.fst TokenMetadataRow.mint (joined.map Prod.fst)
        (metadata_rows.filter fun r => r.mint ∈ mints) joined)
    ⟨fun h => ⟨h.1, h.2⟩, fun h => ⟨h.m, h.md⟩⟩

/-- What a statement does to the tables where it is carried out, `joined` being what the
joins of an INSERT find. -/
def World.effect (escapes : Escapes) (w : World) (joined : List Joined) : Call → Option World
  | .create_as temporary target =>
      if (w.tables target).isSome ∧ w.tables temporary = none then some (w.set temporary (some []))
      else none
  | .insert temporary mint_values mint_source metadata_source => do
      let rows ← w.tables temporary
      let mints ← read_values escapes mint_values
      let mint_rows ← w.raw.token_mints mint_source
      let metadata_rows ← w.raw.token_metadata metadata_source
      if Selects mints mint_rows metadata_rows joined then
        some (w.set temporary (some (rows ++ joined.map Joined.row)))
      else none
  | .exchange target temporary => do
      let published ← w.tables target
      let built ← w.tables temporary
      some ((w.set target (some built)).set temporary (some published))
  | .drop table => (w.tables table).map fun _ => w.set table none
  | .drop_if_exists table => some (w.set table none)

/-- What an INSERT that fails may leave. -/
def World.part (w : World) (landed : List TokenInfoRow) : Call → Option World
  | .insert temporary _ _ _ =>
      (w.tables temporary).map fun rows => w.set temporary (some (rows ++ landed))
  | _ => none

inductive Outcome
  | done (joined : List Joined)
  | failed (err : String)
  /-- Carried out, but answered with an error. -/
  | failed_late (err : String) (joined : List Joined)
  | failed_partly (err : String) (landed : List TokenInfoRow)

def World.respond (escapes : Escapes) (w : World) (c : Call) :
    Outcome → Option (Answer c × World)
  | .done joined => (w.effect escapes joined c).map fun w' => (.ok (), w')
  | .failed err => some (.error err, w)
  | .failed_late err joined => (w.effect escapes joined c).map fun w' => (.error err, w')
  | .failed_partly err landed => (w.part landed c).map fun w' => (.error err, w')

/-! ## The rebuild -/

def HOT_TOKEN_INFO_BATCH_SIZE : ℕ := 10000

inductive RebuildError
  | create (temporary err : String)
  | populate (temporary : String) (batch : ℕ) (first last err : String)
  | exchange (target err : String)
  | drop (temporary err : String)
deriving DecidableEq, Repr

def RebuildError.message : RebuildError → String
  | create temporary err => s!"failed to create temporary table {temporary}: {err}"
  | populate temporary batch first last err =>
      s!"failed to populate temporary table {temporary} in hot-token info batch {batch} " ++
        s!"(range {first} .. {last}): {err}"
  | exchange target err => s!"failed to exchange rebuilt table {target}: {err}"
  | drop temporary err => s!"failed to drop old table {temporary}: {err}"

abbrev Build (α : Type) : Type := Program Call Answer Unit RebuildError α

def execute (c : Call) (error : String → RebuildError) : Build Unit := do
  match ← ask c with
  | .ok () => pure ()
  | .error err => fail (error err)

/-- The loop over the batches. -/
def populate (temporary mint_source metadata_source : String) : List (List String) → ℕ → Build Unit
  | [], _ => pure ()
  | mint_batch :: batches, batch_count => do
      execute (.insert temporary (sql_string_list mint_batch) mint_source metadata_source)
        (.populate temporary (batch_count + 1) (mint_batch.headD "") (mint_batch.getLastD ""))
      populate temporary mint_source metadata_source batches (batch_count + 1)

def rebuild_token_info_table (group : TableGroup) (target : String) (raw_is_full_baseline : Bool)
    (hot_mints : Finset String) (pid nanos : ℕ) : Build Unit := do
  let temporary := temporary_table target pid nanos
  execute (.create_as temporary target) (.create temporary)
  let mint_source := raw_source group "raw_token_mint" raw_is_full_baseline
  let metadata_source := raw_source group "raw_token_metadata" raw_is_full_baseline
  let result ← attempt do
    populate temporary mint_source metadata_source
      ((hot_mints.sort (· ≤ ·)).toChunks HOT_TOKEN_INFO_BATCH_SIZE) 0
    execute (.exchange target temporary) (.exchange target)
    execute (.drop temporary) (.drop temporary)
  match result with
  | .ok () => pure ()
  | .error e =>
      let _ ← ask (.drop_if_exists temporary)
      fail e

/-! ## The check before a cutover -/

inductive StagingError
  | query (err : String)
  | hot_mints_is_empty
  | rows_differ (info_rows frozen_hot_mint_count : ℕ)
deriving DecidableEq, Repr

def StagingError.message : StagingError → String
  | query err => err
  | hot_mints_is_empty => "staging validation failed: frozen hot-mint set is empty"
  | rows_differ info_rows frozen_hot_mint_count =>
      s!"staging validation failed: hot_token_info_bak rows={info_rows}, " ++
        s!"but frozen hot-mint count={frozen_hot_mint_count}"

/-- One of the counts, by the answers to the queries. -/
def metric (query : String → Except String ℕ) (table expression : String) :
    Except StagingError ℕ :=
  (query s!"SELECT {expression} FROM {table}").mapError .query

def validate_staging_group (query : String → Except String ℕ) (frozen_hot_mint_count : ℕ) :
    Except StagingError Unit :=
  if frozen_hot_mint_count = 0 then .error .hot_mints_is_empty
  else do
    let info_rows ← metric query "hot_token_info_bak" "count()"
    if info_rows ≠ frozen_hot_mint_count then .error (.rows_differ info_rows frozen_hot_mint_count)
    else do
      let _ ← metric query "hot_token_account_state_bak" "count()"
      let _ ← metric query "hot_wallet_token_balance_bak" "count()"
      pure ()

theorem except_bind_eq_ok {ε α β : Type} {x : Except ε α} {f : α → Except ε β} {b : β} :
    (x >>= f) = .ok b ↔ ∃ a, x = .ok a ∧ f a = .ok b := by
  cases x with
  | error e =>
      constructor
      · intro h
        cases h
      · rintro ⟨a, ha, -⟩
        cases ha
  | ok a =>
      constructor
      · intro h
        exact ⟨a, rfl, h⟩
      · rintro ⟨a', ha, h⟩
        obtain rfl := Except.ok.inj ha
        exact h

/-- It accepts a set that is not empty and has as many mints as there are rows, where the
other two tables are counted too. -/
theorem validate_staging_group_iff (query : String → Except String ℕ)
    (frozen_hot_mint_count : ℕ) : validate_staging_group query frozen_hot_mint_count = .ok () ↔
      frozen_hot_mint_count ≠ 0 ∧
      metric query "hot_token_info_bak" "count()" = .ok frozen_hot_mint_count ∧
      (∃ state_rows, metric query "hot_token_account_state_bak" "count()" = .ok state_rows) ∧
      ∃ balance_rows, metric query "hot_wallet_token_balance_bak" "count()" = .ok balance_rows := by
  unfold validate_staging_group
  by_cases hzero : frozen_hot_mint_count = 0
  · simp [hzero]
  · rw [if_neg hzero, except_bind_eq_ok]
    constructor
    · rintro ⟨info_rows, hinfo, h⟩
      by_cases hsame : info_rows = frozen_hot_mint_count
      · subst hsame
        rw [if_neg (not_not.mpr rfl), except_bind_eq_ok] at h
        obtain ⟨state_rows, hstate, h⟩ := h
        obtain ⟨balance_rows, hbalance, -⟩ := except_bind_eq_ok.mp h
        exact ⟨hzero, hinfo, ⟨state_rows, hstate⟩, balance_rows, hbalance⟩
      · rw [if_pos hsame] at h
        cases h
    · rintro ⟨-, hinfo, ⟨state_rows, hstate⟩, balance_rows, hbalance⟩
      refine ⟨frozen_hot_mint_count, hinfo, ?_⟩
      rw [if_neg (not_not.mpr rfl), hstate, hbalance]
      rfl

/-! ## Complete tables -/

/-- The row says of its mint what the two sources have. -/
def Described (raw : RawTables) (group : TableGroup) (raw_is_full_baseline : Bool)
    (row : TokenInfoRow) : Prop :=
  ∃ m md,
    Finds TokenMintRow.mint (source_rows token_mint_engine raw_is_full_baseline
      (raw.raw_token_mint group)) row.mint m ∧
    Finds TokenMetadataRow.mint (source_rows token_metadata_engine raw_is_full_baseline
      (raw.raw_token_metadata group)) row.mint md ∧
    Describes row m md

/-- One row for each of the mints, and no other row. -/
structure Complete (raw : RawTables) (group : TableGroup) (raw_is_full_baseline : Bool)
    (hot_mints : Finset String) (rows : List TokenInfoRow) : Prop where
  once : (rows.map TokenInfoRow.mint).Nodup
  mints : (rows.map TokenInfoRow.mint).toFinset = hot_mints
  described : ∀ row ∈ rows, Described raw group raw_is_full_baseline row

/-- What a count may be while some superseded rows are merged away and others are not. -/
def Counted (rows : List TokenInfoRow) (n : ℕ) : Prop :=
  (rows.map TokenInfoRow.mint).toFinset.card ≤ n ∧ n ≤ rows.length

section Complete

variable {raw : RawTables} {group : TableGroup} {raw_is_full_baseline : Bool}
  {hot_mints : Finset String} {rows : List TokenInfoRow}

/-- A complete table counts as many rows as there are mints. -/
theorem Complete.counted_iff {n : ℕ}
    (h : Complete raw group raw_is_full_baseline hot_mints rows) :
    Counted rows n ↔ n = hot_mints.card := by
  have hlength : rows.length = hot_mints.card := by
    rw [← h.mints, List.toFinset_card_of_nodup h.once, List.length_map]
  rw [Counted, h.mints, hlength]
  omega

end Complete

/-! ## What a batch adds -/

section Filled

variable {raw : RawTables} {group : TableGroup} {raw_is_full_baseline : Bool}

/-- One row for each of the mints so far. -/
structure Filled (raw : RawTables) (group : TableGroup) (raw_is_full_baseline : Bool)
    (mints : List String) (rows : List TokenInfoRow) : Prop where
  mints : (rows.map TokenInfoRow.mint).Perm mints
  described : ∀ row ∈ rows, Described raw group raw_is_full_baseline row

theorem filled_nil : Filled raw group raw_is_full_baseline [] [] :=
  ⟨.refl _, fun _ hrow => absurd hrow List.not_mem_nil⟩

/-- Two batches that are filled make one that is filled. -/
theorem Filled.append {mints mints' : List String} {rows rows' : List TokenInfoRow}
    (h : Filled raw group raw_is_full_baseline mints rows)
    (h' : Filled raw group raw_is_full_baseline mints' rows') :
    Filled raw group raw_is_full_baseline (mints ++ mints') (rows ++ rows') where
  mints := by
    rw [List.map_append]
    exact h.mints.append h'.mints
  described := by
    intro row hrow
    rcases List.mem_append.mp hrow with hrow | hrow
    · exact h.described row hrow
    · exact h'.described row hrow

/-- **The INSERT of a batch** adds one row for each of its mints. -/
theorem Selects.filled {mints : List String} {joined : List Joined}
    (h : Selects mints
      (source_rows token_mint_engine raw_is_full_baseline (raw.raw_token_mint group))
      (source_rows token_metadata_engine raw_is_full_baseline (raw.raw_token_metadata group))
      joined) :
    Filled raw group raw_is_full_baseline mints (joined.map Joined.row) where
  mints := by
    have honce := h.m.once
    rw [List.map_map] at honce ⊢
    exact honce
  described := by
    intro row hrow
    obtain ⟨j, hj, rfl⟩ := List.mem_map.mp hrow
    have hmint : j.1.1 ∈ mints := by
      refine h.m.once.subset ?_
      exact List.mem_map_of_mem (List.mem_map_of_mem hj)
    have hm := h.m.finds j.1 (List.mem_map_of_mem hj)
    have hmd := h.md.finds j hj
    refine ⟨j.1.2, j.2, ?_, ?_, describes_token_info_row j.1.1 j.1.2 j.2⟩
    · refine (finds_filter fun r hr => ?_).mp hm
      rw [hr]
      exact decide_eq_true hmint
    · refine (finds_filter fun r hr => ?_).mp hmd
      rw [hr]
      exact decide_eq_true hmint

/-- All of the mints make a complete table. -/
theorem Filled.complete {hot_mints : Finset String} {mints : List String}
    {rows : List TokenInfoRow} (h : Filled raw group raw_is_full_baseline mints rows)
    (hnodup : mints.Nodup) (hmints : mints.toFinset = hot_mints) :
    Complete raw group raw_is_full_baseline hot_mints rows where
  once := h.mints.nodup_iff.mpr hnodup
  mints := by rw [List.toFinset_eq_of_perm _ _ h.mints, hmints]
  described := h.described

end Filled

/-! ## What a statement can change -/

section Statements

variable {escapes : Escapes} {w w' : World} {joined : List Joined} {c : Call}

/-- The tables that a statement writes to. -/
def Call.writes : Call → List String
  | .create_as temporary _ => [temporary]
  | .insert temporary _ _ _ => [temporary]
  | .exchange target temporary => [target, temporary]
  | .drop table => [table]
  | .drop_if_exists table => [table]

/-- Only tables with these names differ. -/
structure ChangesOnly (names : List String) (w w' : World) : Prop where
  raw : w'.raw = w.raw
  tables : ∀ table ∉ names, w'.tables table = w.tables table

theorem ChangesOnly.refl (names : List String) (w : World) : ChangesOnly names w w :=
  ⟨rfl, fun _ _ => rfl⟩

/-- A write to a listed table changes listed tables only. -/
theorem changes_only_set {names : List String} {table : String} (h : table ∈ names) (w : World)
    (rows : Option (List TokenInfoRow)) : ChangesOnly names w (w.set table rows) where
  raw := rfl
  tables := by
    intro other hother
    refine Function.update_of_ne ?_ _ _
    rintro rfl
    exact hother h

/-- Changes within a list of tables compose. -/
theorem ChangesOnly.trans {names : List String} {w'' : World} (h : ChangesOnly names w w')
    (h' : ChangesOnly names w' w'') : ChangesOnly names w w'' :=
  ⟨h'.raw.trans h.raw, fun table hother => (h'.tables table hother).trans (h.tables table hother)⟩

/-- What an INSERT does. -/
theorem effect_insert {temporary mint_values mint_source metadata_source : String}
    (h : w.effect escapes joined (.insert temporary mint_values mint_source metadata_source)
      = some w') :
    ∃ rows mints mint_rows metadata_rows, w.tables temporary = some rows ∧
      read_values escapes mint_values = some mints ∧
      w.raw.token_mints mint_source = some mint_rows ∧
      w.raw.token_metadata metadata_source = some metadata_rows ∧
      Selects mints mint_rows metadata_rows joined ∧
      w' = w.set temporary (some (rows ++ joined.map Joined.row)) := by
  obtain ⟨rows, hrows, h⟩ := Option.bind_eq_some_iff.mp h
  obtain ⟨mints, hmints, h⟩ := Option.bind_eq_some_iff.mp h
  obtain ⟨mint_rows, hmint_rows, h⟩ := Option.bind_eq_some_iff.mp h
  obtain ⟨metadata_rows, hmetadata_rows, h⟩ := Option.bind_eq_some_iff.mp h
  split at h
  · rename_i hselects
    exact ⟨rows, mints, mint_rows, metadata_rows, hrows, hmints, hmint_rows, hmetadata_rows,
      hselects, (Option.some.inj h).symm⟩
  · cases h

/-- An exchange that lands swaps the rows of its two tables. -/
theorem effect_exchange {target temporary : String}
    (h : w.effect escapes joined (.exchange target temporary) = some w') :
    ∃ published built, w.tables target = some published ∧ w.tables temporary = some built ∧
      w' = (w.set target (some built)).set temporary (some published) := by
  obtain ⟨published, hpublished, h⟩ := Option.bind_eq_some_iff.mp h
  obtain ⟨built, hbuilt, h⟩ := Option.bind_eq_some_iff.mp h
  exact ⟨published, built, hpublished, hbuilt, (Option.some.inj h).symm⟩

/-- After an exchange the target has the rows of the temporary table. -/
theorem tables_exchange {target temporary : String} (hne : target ≠ temporary)
    (h : w.effect escapes joined (.exchange target temporary) = some w') :
    ∃ built, w.tables temporary = some built ∧ w'.tables target = some built := by
  obtain ⟨published, built, -, hbuilt, rfl⟩ := effect_exchange h
  refine ⟨built, hbuilt, ?_⟩
  rw [(changes_only_set (List.mem_singleton_self temporary) _ _).tables target (by simpa using hne)]
  exact Function.update_self ..

/-- A statement writes no table but the ones it names. -/
theorem effect_changes (h : w.effect escapes joined c = some w') :
    ChangesOnly c.writes w w' := by
  cases c with
  | create_as temporary target =>
      rw [World.effect, Option.ite_none_right_eq_some] at h
      obtain rfl := Option.some.inj h.2
      exact changes_only_set (by simp [Call.writes]) w _
  | insert temporary mint_values mint_source metadata_source =>
      obtain ⟨_, _, _, _, -, -, -, -, -, rfl⟩ := effect_insert h
      exact changes_only_set (by simp [Call.writes]) w _
  | exchange target temporary =>
      obtain ⟨published, built, -, -, rfl⟩ := effect_exchange h
      exact (changes_only_set (by simp [Call.writes]) w _).trans
        (changes_only_set (by simp [Call.writes]) _ _)
  | drop table =>
      obtain ⟨_, -, rfl⟩ := Option.map_eq_some_iff.mp h
      exact changes_only_set (by simp [Call.writes]) w _
  | drop_if_exists table =>
      obtain rfl := Option.some.inj h
      exact changes_only_set (by simp [Call.writes]) w _

/-- A statement that lands in part writes no other table either. -/
theorem part_changes {landed : List TokenInfoRow} (h : w.part landed c = some w') :
    ChangesOnly c.writes w w' := by
  unfold World.part at h
  split at h
  · obtain ⟨_, -, rfl⟩ := Option.map_eq_some_iff.mp h
    exact changes_only_set (by simp [Call.writes]) w _
  · cases h

/-- A statement has no effect, its effect, or that of an INSERT which has failed. -/
theorem respond_cases {o : Outcome} {a : Answer c} (h : w.respond escapes c o = some (a, w')) :
    w' = w ∨ (∃ joined, w.effect escapes joined c = some w') ∨
      ∃ landed, w.part landed c = some w' := by
  cases o with
  | done joined =>
      obtain ⟨_, hw', heq⟩ := Option.map_eq_some_iff.mp h
      cases heq
      exact .inr (.inl ⟨joined, hw'⟩)
  | failed err =>
      cases h
      exact .inl rfl
  | failed_late err joined =>
      obtain ⟨_, hw', heq⟩ := Option.map_eq_some_iff.mp h
      cases heq
      exact .inr (.inl ⟨joined, hw'⟩)
  | failed_partly err landed =>
      obtain ⟨_, hw', heq⟩ := Option.map_eq_some_iff.mp h
      cases heq
      exact .inr (.inr ⟨landed, hw'⟩)

/-- An accepted statement has landed whole. -/
theorem respond_ok {o : Outcome} (h : w.respond escapes c o = some (.ok (), w')) :
    ∃ joined, w.effect escapes joined c = some w' := by
  cases o with
  | done joined =>
      obtain ⟨_, hw', heq⟩ := Option.map_eq_some_iff.mp h
      cases heq
      exact ⟨joined, hw'⟩
  | failed err => cases h
  | failed_late err joined =>
      obtain ⟨_, -, heq⟩ := Option.map_eq_some_iff.mp h
      cases heq
  | failed_partly err landed =>
      obtain ⟨_, -, heq⟩ := Option.map_eq_some_iff.mp h
      cases heq

/-- Whatever the server answers, a statement writes no table but the ones it names. -/
theorem respond_changes {o : Outcome} {a : Answer c} (h : w.respond escapes c o = some (a, w')) :
    ChangesOnly c.writes w w' := by
  rcases respond_cases h with rfl | ⟨joined, heffect⟩ | ⟨landed, hpart⟩
  · exact .refl _ w'
  · exact effect_changes heffect
  · exact part_changes hpart

end Statements

/-! ## What the rebuild relies on -/

/-- The table is there and is as it should be. -/
def World.Has (w : World) (table : String) (P : List TokenInfoRow → Prop) : Prop :=
  ∃ rows, w.tables table = some rows ∧ P rows

/-- The raw tables are the ones the build began with, and the published table is the
previous one or a complete new one. -/
structure Published (before : World) (target : String) (complete : List TokenInfoRow → Prop)
    (w : World) : Prop where
  raw : w.raw = before.raw
  table : w.tables target = before.tables target ∨ w.Has target complete

/-- The published table may only be exchanged, and only with a complete one. -/
def MayExecute (target : String) (complete : List TokenInfoRow → Prop) (w : World) (c : Call) :
    Prop :=
  target ∉ c.writes ∨
    ∃ temporary, c = .exchange target temporary ∧ target ≠ temporary ∧ w.Has temporary complete

/-- A statement that may be executed leaves the target as it was or complete. -/
theorem Published.respond {escapes : Escapes} {before w w' : World} {target : String}
    {complete : List TokenInfoRow → Prop} {c : Call} {o : Outcome} {a : Answer c}
    (h : Published before target complete w) (hc : MayExecute target complete w c)
    (hr : w.respond escapes c o = some (a, w')) : Published before target complete w' := by
  have hchanges := respond_changes hr
  refine ⟨hchanges.raw.trans h.raw, ?_⟩
  rcases hc with hother | ⟨temporary, rfl, hne, rows, hrows, hcomplete⟩
  · rw [World.Has, hchanges.tables target hother]
    exact h.table
  · rcases respond_cases hr with rfl | ⟨joined, heffect⟩ | ⟨landed, hpart⟩
    · exact h.table
    · obtain ⟨built, hbuilt, htarget⟩ := tables_exchange hne heffect
      obtain rfl := Option.some.inj (hrows.symm.trans hbuilt)
      exact .inr ⟨rows, htarget, hcomplete⟩
    · cases hpart

def rebuilding (escapes : Escapes) (before : World) (target : String)
    (complete : List TokenInfoRow → Prop) : Contract Call Answer Outcome World where
  respond := World.respond escapes
  Inv := Published before target complete
  Allowed := MayExecute target complete
  keeps := Published.respond

section Rebuild

variable {escapes : Escapes} {before w : World} {target temporary : String} {group : TableGroup}
  {raw_is_full_baseline : Bool} {complete : List TokenInfoRow → Prop}

/-- The rule for one statement: it lands, or the build stops with its error. -/
theorem wp_execute {c : Call} {error : String → RebuildError} {Q : Unit → Unit → World → Prop}
    {E : RebuildError → Unit → World → Prop} (hc : MayExecute target complete w c)
    (hok : ∀ joined w', w.effect escapes joined c = some w' →
      Published before target complete w' → Q () () w')
    (herr : ∀ err w', E (error err) () w') :
    wp (rebuilding escapes before target complete) (execute c error) Q E () w := by
  unfold execute
  rw [wp_bind, wp_ask]
  refine ⟨hc, fun o a w' hr hw' => ?_⟩
  cases a with
  | ok done =>
      obtain ⟨joined, heffect⟩ := respond_ok hr
      exact hok joined w' heffect hw'
  | error err => exact herr err w'

/-- **The loop over the batches** fills the temporary table with one row for each of the
mints. -/
theorem wp_populate (hne : target ≠ temporary) (batches : List (List String)) (batch_count : ℕ)
    (hbase58 : ∀ mint ∈ batches.flatten, Base58 mint) {done : List String}
    {rows : List TokenInfoRow} (hw : Published before target complete w)
    (hrows : w.tables temporary = some rows)
    (hfilled : Filled before.raw group raw_is_full_baseline done rows) :
    wp (rebuilding escapes before target complete)
      (populate temporary (raw_source group "raw_token_mint" raw_is_full_baseline)
        (raw_source group "raw_token_metadata" raw_is_full_baseline) batches batch_count)
      (fun _ _ w' => w'.Has temporary
        (Filled before.raw group raw_is_full_baseline (done ++ batches.flatten)))
      (fun _ _ _ => True) () w := by
  induction batches generalizing batch_count done rows w with
  | nil =>
      rw [List.flatten_nil, List.append_nil]
      exact ⟨rows, hrows, hfilled⟩
  | cons mint_batch batches ih =>
      rw [List.flatten_cons, List.forall_mem_append] at hbase58
      rw [List.flatten_cons, ← List.append_assoc]
      unfold populate
      rw [wp_bind]
      refine wp_execute (.inl (by simpa [Call.writes] using hne)) ?_
        fun _ _ => trivial
      intro joined w' heffect hw'
      obtain ⟨rows', mints, mint_rows, metadata_rows, hrows', hmints, hmint_rows, hmetadata_rows,
        hselects, rfl⟩ := effect_insert heffect
      -- the array is read as the batch, and the two names as the tables of the group
      obtain rfl := Option.some.inj (hrows.symm.trans hrows')
      obtain rfl := Option.some.inj ((read_values_sql_string_list hbase58.1).symm.trans hmints)
      rw [token_mints_raw_source, hw.raw] at hmint_rows
      rw [token_metadata_raw_source, hw.raw] at hmetadata_rows
      obtain rfl := Option.some.inj hmint_rows
      obtain rfl := Option.some.inj hmetadata_rows
      exact ih (batch_count + 1) hbase58.2 hw' (Function.update_self ..)
        (hfilled.append hselects.filled)

/-- The batches have the mints of the set. -/
theorem base58_batches {hot_mints : Finset String} (h : ∀ mint ∈ hot_mints, Base58 mint) :
    ∀ mint ∈ ((hot_mints.sort (· ≤ ·)).toChunks HOT_TOKEN_INFO_BATCH_SIZE).flatten,
      Base58 mint := by
  intro mint hmint
  rw [flatten_toChunks, Finset.mem_sort] at hmint
  exact h mint hmint

/-- The temporary table never has the target's name. -/
theorem temporary_table_ne (target : String) (pid nanos : ℕ) :
    target ≠ temporary_table target pid nanos := by
  intro h
  have hlength := congrArg String.length h
  simp only [temporary_table, String.length_append] at hlength
  have hbuild : "__build_".length = 8 := rfl
  omega

/-- The exchange of a complete table, and the drop of the other one. -/
theorem wp_publish (hne : target ≠ temporary) (hcomplete : w.Has temporary complete) :
    wp (rebuilding escapes before target complete)
      (do execute (.exchange target temporary) (.exchange target)
          execute (.drop temporary) (.drop temporary))
      (fun _ _ w' => w'.Has target complete) (fun _ _ _ => True) () w := by
  rw [wp_bind]
  refine wp_execute (.inr ⟨temporary, rfl, hne, hcomplete⟩) ?_ fun _ _ => trivial
  intro joined w₁ heffect hw₁
  obtain ⟨rows, hrows, hcomplete⟩ := hcomplete
  obtain ⟨built, hbuilt, htarget⟩ := tables_exchange hne heffect
  obtain rfl := Option.some.inj (hrows.symm.trans hbuilt)
  have hother : target ∉ (Call.drop temporary).writes := by simpa [Call.writes] using hne
  refine wp_execute (.inl hother) ?_ fun _ _ => trivial
  intro joined w₂ heffect hw₂
  refine ⟨rows, ?_, hcomplete⟩
  rw [(effect_changes heffect).tables target hother, htarget]

/-- **The rebuild** ends well only with a complete table in place. -/
theorem wp_rebuild (hot_mints : Finset String) (pid nanos : ℕ)
    (hbase58 : ∀ mint ∈ hot_mints, Base58 mint) :
    wp (rebuilding escapes before target
        (Complete before.raw group raw_is_full_baseline hot_mints))
      (rebuild_token_info_table group target raw_is_full_baseline hot_mints pid nanos)
      (fun _ _ w => w.Has target (Complete before.raw group raw_is_full_baseline hot_mints))
      (fun _ _ _ => True) () before := by
  have hne := temporary_table_ne target pid nanos
  unfold rebuild_token_info_table
  dsimp only
  rw [wp_bind]
  refine wp_execute (.inl (by simpa [Call.writes] using hne)) ?_ fun _ _ => trivial
  intro joined w₁ heffect hw₁
  -- the temporary table is created empty
  have hempty : w₁.tables (temporary_table target pid nanos) = some [] := by
    rw [World.effect, Option.ite_none_right_eq_some] at heffect
    obtain rfl := Option.some.inj heffect.2
    exact Function.update_self ..
  rw [wp_bind, wp_attempt]
  refine wp.mono (Q := fun _ _ w' => w'.Has target
      (Complete before.raw group raw_is_full_baseline hot_mints)) hw₁
    (wp.then hw₁ (wp_populate hne _ 0 (base58_batches hbase58) hw₁ hempty filled_nil) ?_
      fun _ _ _ _ h => h) ?_ ?_
  -- filled with the rows of all batches, it is exchanged with the target
  · rintro - - w₂ hw₂ ⟨rows, hrows, hfilled⟩
    rw [List.nil_append, flatten_toChunks] at hfilled
    exact wp_publish hne ⟨rows, hrows,
      hfilled.complete (Finset.sort_nodup _ _) (Finset.sort_toFinset _ _)⟩
  · rintro ⟨⟩ ⟨⟩ w₂ - hcomplete
    exact hcomplete
  · -- after an error the temporary table is dropped, and the error returned
    rintro e ⟨⟩ w₂ - -
    refine wp_bind.mpr (wp_ask.mpr ⟨.inl (by simpa [Call.writes] using hne), ?_⟩)
    exact fun _ _ _ _ _ => trivial

end Rebuild

/-! ## Builds that succeed -/

section Succeeds

variable {escapes : Escapes} {w w' : World} {target temporary : String} {group : TableGroup}
  {raw_is_full_baseline : Bool}

/-- Whatever the raw tables hold, a batch has a result. -/
theorem exists_selects (mints : List String) (mint_rows : List TokenMintRow)
    (metadata_rows : List TokenMetadataRow) :
    ∃ joined, Selects mints mint_rows metadata_rows joined := by
  obtain ⟨first, -, hfirst⟩ := exists_left_any_join id TokenMintRow.mint mints
    (mint_rows.filter fun r => r.mint ∈ mints)
  obtain ⟨joined, hmap, hjoined⟩ := exists_left_any_join Prod.fst TokenMetadataRow.mint first
    (metadata_rows.filter fun r => r.mint ∈ mints)
  subst hmap
  exact ⟨joined, hfirst, hjoined⟩

/-- A statement that can land has an execution in which it does. -/
theorem reaches_execute {c : Call} {error : String → RebuildError} {joined : List Joined}
    (h : w.effect escapes joined c = some w') :
    Prog.Reaches (World.respond escapes) (execute c error ()) w (.ok (), ()) w' := by
  have hr : w.respond escapes c (.done joined) = some (.ok (), w') := by
    rw [World.respond, h]
    rfl
  exact Prog.reaches_call hr (Prog.reaches_done _ _)

theorem set_set (w : World) (table : String) (rows rows' : Option (List TokenInfoRow)) :
    (w.set table rows).set table rows' = w.set table rows' := by
  unfold World.set
  rw [Function.update_idem]

/-- The inserts of all batches can land, one after the other. -/
theorem reaches_populate (batches : List (List String)) (batch_count : ℕ)
    (hbase58 : ∀ mint ∈ batches.flatten, Base58 mint) {rows : List TokenInfoRow}
    (hrows : w.tables temporary = some rows) :
    ∃ rows', Prog.Reaches (World.respond escapes)
      (populate temporary (raw_source group "raw_token_mint" raw_is_full_baseline)
        (raw_source group "raw_token_metadata" raw_is_full_baseline) batches batch_count ())
      w (.ok (), ()) (w.set temporary (some rows')) := by
  induction batches generalizing batch_count rows w with
  | nil =>
      refine ⟨rows, ?_⟩
      have hsame : w.set temporary (some rows) = w := by
        unfold World.set
        rw [← hrows, Function.update_eq_self]
      rw [hsame]
      exact Prog.reaches_done _ _
  | cons mint_batch batches ih =>
      rw [List.flatten_cons, List.forall_mem_append] at hbase58
      -- the server finds some joined rows, and the literal reads as the batch
      obtain ⟨joined, hselects⟩ := exists_selects mint_batch
        (source_rows token_mint_engine raw_is_full_baseline (w.raw.raw_token_mint group))
        (source_rows token_metadata_engine raw_is_full_baseline (w.raw.raw_token_metadata group))
      have heffect : w.effect escapes joined (.insert temporary (sql_string_list mint_batch)
          (raw_source group "raw_token_mint" raw_is_full_baseline)
          (raw_source group "raw_token_metadata" raw_is_full_baseline))
          = some (w.set temporary (some (rows ++ joined.map Joined.row))) := by
        simp [World.effect, hrows, read_values_sql_string_list hbase58.1, token_mints_raw_source,
          token_metadata_raw_source, hselects]
      obtain ⟨rows', hrest⟩ := ih (batch_count + 1) hbase58.2
        (w := w.set temporary (some (rows ++ joined.map Joined.row))) (Function.update_self ..)
      rw [set_set] at hrest
      exact ⟨rows', reaches_bind (reaches_execute heffect) hrest⟩

/-- The exchange and the two drops can land. -/
theorem reaches_publish {published built : List TokenInfoRow}
    (htarget : w.tables target = some published) (hbuilt : w.tables temporary = some built) :
    ∃ w', Prog.Reaches (World.respond escapes)
      ((do execute (.exchange target temporary) (.exchange target)
           execute (.drop temporary) (.drop temporary) : Build Unit) ()) w (.ok (), ()) w' := by
  have hexchange : w.effect escapes [] (.exchange target temporary)
      = some ((w.set target (some built)).set temporary (some published)) := by
    simp [World.effect, htarget, hbuilt]
  have hold : ((w.set target (some built)).set temporary (some published)).tables temporary
      = some published := Function.update_self ..
  have hdrop : ((w.set target (some built)).set temporary (some published)).effect escapes []
      (.drop temporary)
      = some (((w.set target (some built)).set temporary (some published)).set temporary none) := by
    rw [World.effect, hold]
    rfl
  exact ⟨_, reaches_bind (reaches_execute hexchange) (reaches_execute hdrop)⟩

/-- **A build can succeed** whatever the raw tables hold, if there is a table to exchange
and its temporary name is free. -/
theorem rebuild_can_succeed (hot_mints : Finset String) (pid nanos : ℕ)
    (hbase58 : ∀ mint ∈ hot_mints, Base58 mint) (htarget : (w.tables target).isSome)
    (hfree : w.tables (temporary_table target pid nanos) = none) :
    ∃ w', Prog.Reaches (World.respond escapes)
      (rebuild_token_info_table group target raw_is_full_baseline hot_mints pid nanos ()) w
      (.ok (), ()) w' := by
  obtain ⟨published, hpublished⟩ := Option.isSome_iff_exists.mp htarget
  have hne := temporary_table_ne target pid nanos
  have hcreate : w.effect escapes [] (.create_as (temporary_table target pid nanos) target)
      = some (w.set (temporary_table target pid nanos) (some [])) := by
    rw [World.effect, if_pos ⟨htarget, hfree⟩]
  have hfill : ∃ rows, Prog.Reaches (World.respond escapes)
      (populate (temporary_table target pid nanos)
        (raw_source group "raw_token_mint" raw_is_full_baseline)
        (raw_source group "raw_token_metadata" raw_is_full_baseline)
        ((hot_mints.sort (· ≤ ·)).toChunks HOT_TOKEN_INFO_BATCH_SIZE) 0 ())
      (w.set (temporary_table target pid nanos) (some [])) (.ok (), ())
      ((w.set (temporary_table target pid nanos) (some [])).set (temporary_table target pid nanos)
        (some rows)) := reaches_populate _ 0 (base58_batches hbase58) (Function.update_self ..)
  obtain ⟨rows, hfill⟩ := hfill
  rw [set_set] at hfill
  -- the inserts leave the target there to be exchanged
  have hkept : (w.set (temporary_table target pid nanos) (some rows)).tables target
      = some published := (Function.update_of_ne hne _ _).trans hpublished
  obtain ⟨w', hpublish⟩ := @reaches_publish escapes _ _ _ _ _ hkept (Function.update_self ..)
  refine ⟨w', reaches_bind (reaches_execute hcreate) ?_⟩
  exact reaches_bind (reaches_attempt (reaches_bind hfill hpublish)) (Prog.reaches_done _ _)

end Succeeds

/-! ## The build and the check -/

/-- The three queries of the check are answered, the first one with a count of the published
table. -/
structure Counts (w : World) (query : String → Except String ℕ) : Prop where
  info : ∀ rows, w.tables "hot_token_info_bak" = some rows →
    ∃ info_rows, Counted rows info_rows ∧
      metric query "hot_token_info_bak" "count()" = .ok info_rows
  state : ∃ state_rows, metric query "hot_token_account_state_bak" "count()" = .ok state_rows
  balance : ∃ balance_rows,
    metric query "hot_wallet_token_balance_bak" "count()" = .ok balance_rows

/-- **The token-info build satisfies the check before a cutover.** At every point of a run
the published table is the previous one or a complete new one. When the rebuild succeeds
it is a complete one, and for staging the check accepts it. -/
theorem token_info_build_accepted (escapes : Escapes) (group : TableGroup)
    (raw_is_full_baseline : Bool) (hot_mints : Finset String) (pid nanos : ℕ)
    (hne : hot_mints.Nonempty) (hbase58 : ∀ mint ∈ hot_mints, Base58 mint) (before w : World)
    (outcomes : List Outcome) (rest : Prog Call Answer (Except RebuildError Unit × Unit))
    (hrun : Lts.run (Prog.step (World.respond escapes))
      (rebuild_token_info_table group (group.table "hot_token_info") raw_is_full_baseline
        hot_mints pid nanos (), before) outcomes = some (rest, w)) :
    (w.tables (group.table "hot_token_info") = before.tables (group.table "hot_token_info") ∨
      w.Has (group.table "hot_token_info")
        (Complete before.raw group raw_is_full_baseline hot_mints)) ∧
    (rest.result = some (.ok (), ()) →
      w.Has (group.table "hot_token_info")
        (Complete before.raw group raw_is_full_baseline hot_mints) ∧
      (group = .Backup → ∀ query, Counts w query →
        validate_staging_group query hot_mints.card = .ok ())) := by
  have hsafe : wp (rebuilding escapes before (group.table "hot_token_info")
        (Complete before.raw group raw_is_full_baseline hot_mints))
      (rebuild_token_info_table group (group.table "hot_token_info") raw_is_full_baseline
        hot_mints pid nanos)
      (fun _ _ w => w.Has (group.table "hot_token_info")
        (Complete before.raw group raw_is_full_baseline hot_mints))
      (fun _ _ _ => True) () before := wp_rebuild hot_mints pid nanos hbase58
  have hbegin : Published before (group.table "hot_token_info")
      (Complete before.raw group raw_is_full_baseline hot_mints) before := ⟨rfl, .inl rfl⟩
  obtain ⟨hpublished, hrest⟩ := Contract.Safe.run hbegin hsafe hrun
  refine ⟨hpublished.table, fun hresult => ?_⟩
  have hcomplete : w.Has (group.table "hot_token_info")
      (Complete before.raw group raw_is_full_baseline hot_mints) := hrest.result hresult
  refine ⟨hcomplete, ?_⟩
  -- each mint has one row, so merges leave nothing to count but the mints
  rintro rfl query hcounts
  obtain ⟨rows, hrows, hcomplete⟩ := hcomplete
  obtain ⟨info_rows, hcounted, hinfo⟩ := hcounts.info rows hrows
  obtain rfl := hcomplete.counted_iff.mp hcounted
  exact (validate_staging_group_iff query hot_mints.card).mpr
    ⟨hne.card_ne_zero, hinfo, hcounts.state, hcounts.balance⟩

/-- One mint in two versions, no metadata of it, and a mint that is not hot. -/
def two_versions : World where
  raw := {
    raw_token_mint := fun _ => [
      ⟨"11111111111111111111111111111112", none, 5, 6, true, none, 10⟩,
      ⟨"11111111111111111111111111111112", none, 7, 6, true, none, 20⟩,
      ⟨"11111111111111111111111111111113", none, 1, 0, true, none, 20⟩]
    raw_token_metadata := fun _ => [] }
  tables := fun table => if table = "hot_token_info_bak" then some [] else none

theorem token_info_build_accepted_two_versions :
    ∃ w, Prog.Reaches (World.respond .literal)
      (rebuild_token_info_table .Backup "hot_token_info_bak" false
        {"11111111111111111111111111111112"} 7 9 ()) two_versions (.ok (), ()) w ∧
      w.Has "hot_token_info_bak"
        (Complete two_versions.raw .Backup false {"11111111111111111111111111111112"}) ∧
      validate_staging_group (fun _ => .ok 1) 1 = .ok () := by
  have hbase58 : ∀ mint ∈ ({"11111111111111111111111111111112"} : Finset String), Base58 mint := by
    decide +kernel
  have hfree : two_versions.tables (temporary_table "hot_token_info_bak" 7 9) = none := by
    simp only [two_versions, if_neg (temporary_table_ne "hot_token_info_bak" 7 9).symm]
  obtain ⟨w, outcomes, hrun⟩ := @rebuild_can_succeed .literal two_versions "hot_token_info_bak"
    .Backup false _ 7 9 hbase58 rfl hfree
  obtain ⟨-, hend⟩ := token_info_build_accepted .literal .Backup false
    {"11111111111111111111111111111112"} 7 9 (Finset.singleton_nonempty _) hbase58 two_versions w
    outcomes _ hrun
  obtain ⟨⟨rows, hrows, hcomplete⟩, hvalid⟩ := hend rfl
  refine ⟨w, ⟨outcomes, hrun⟩, ⟨rows, hrows, hcomplete⟩, ?_⟩
  refine hvalid rfl (fun _ => .ok 1) ⟨fun rows' hrows' => ⟨1, ?_, rfl⟩, ⟨1, rfl⟩, ⟨1, rfl⟩⟩
  obtain rfl := Option.some.inj (hrows.symm.trans hrows')
  exact hcomplete.counted_iff.mpr rfl

end SnapshotEtl.TokenInfo
