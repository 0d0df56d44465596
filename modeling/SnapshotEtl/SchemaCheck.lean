/-
The check of the schema before any snapshot is read.

Both groups must have the same schema, since an exchange makes either of them the active
one. The check goes by names: it asks for the tables, the columns and the projections
under fourteen names, in whatever order ClickHouse lists them, and compares texts. What
it decides is a fact of the tables themselves. It passes exactly where each table of
either generation has what its kind needs, so that an exchange, also half of one, cannot
make it fail.
-/
import SnapshotEtl.Journal
import SnapshotEtl.SqlText

set_option autoImplicit false

namespace SnapshotEtl.SchemaCheck

/-! ## What is asked for -/

structure SystemTableRow where
  name : String
  engine : String
  sorting_key : String
  engine_full : String
  create_table_query : String
deriving DecidableEq

structure SystemColumnRow where
  table : String
  name : String
  /-- `r#type`. -/
  column_type : String
deriving DecidableEq

structure SystemProjectionRow where
  table : String
  name : String
  sorting_key : String
deriving DecidableEq

structure RequiredTableSpec where
  name : String
  engine : String
  engine_full_prefix : String
  sorting_key : String
deriving DecidableEq

def requires_rebuild_projection_mode (table : String) : Bool :=
  table ∈ ["hot_token_account_state", "hot_token_account_state_bak", "hot_wallet_token_balance",
    "hot_wallet_token_balance_bak"]

/-- `char::is_ascii_whitespace`. -/
def is_ascii_whitespace (ch : Char) : Bool := ch ∈ [' ', '\t', '\n', '\x0c', '\r']

def normalized_query (create_table_query : String) : List Char :=
  (create_table_query.toList.map Char.toLower).filter fun ch => !is_ascii_whitespace ch

def REBUILD_PROJECTION_MODE : String := "deduplicate_merge_projection_mode='rebuild'"

def table_has_rebuild_projection_mode (create_table_query : String) : Bool :=
  REBUILD_PROJECTION_MODE.toList <:+: normalized_query create_table_query

def normalize_sorting_key (value : String) : String :=
  String.ofList (value.toList.filter fun ch =>
    !is_ascii_whitespace ch && ch ∉ ['(', ')', '[', ']', '\'', '"'])

def required_table_specs : List RequiredTableSpec := [
  ⟨"raw_account", "ReplacingMergeTree", "ReplacingMergeTree(updated_slot)", "owner, pubkey"⟩,
  ⟨"raw_token_mint", "ReplacingMergeTree", "ReplacingMergeTree(updated_slot)", "mint"⟩,
  ⟨"raw_token_metadata", "ReplacingMergeTree", "ReplacingMergeTree(updated_slot)", "mint"⟩,
  ⟨"raw_account_bak", "ReplacingMergeTree", "ReplacingMergeTree(updated_slot)", "owner, pubkey"⟩,
  ⟨"raw_token_mint_bak", "ReplacingMergeTree", "ReplacingMergeTree(updated_slot)", "mint"⟩,
  ⟨"raw_token_metadata_bak", "ReplacingMergeTree", "ReplacingMergeTree(updated_slot)", "mint"⟩,
  ⟨"hot_token", "ReplacingMergeTree", "ReplacingMergeTree(version)", "mint"⟩,
  -- a View has an empty `engine_full`
  ⟨"hot_token_enabled", "View", "", ""⟩,
  ⟨"hot_token_account_state", "ReplacingMergeTree",
    "ReplacingMergeTree(updated_slot, is_deleted)", "pubkey"⟩,
  ⟨"hot_token_account_state_bak", "ReplacingMergeTree",
    "ReplacingMergeTree(updated_slot, is_deleted)", "pubkey"⟩,
  ⟨"hot_wallet_token_balance", "ReplacingMergeTree", "ReplacingMergeTree(updated_slot)",
    "mint, owner"⟩,
  ⟨"hot_wallet_token_balance_bak", "ReplacingMergeTree", "ReplacingMergeTree(updated_slot)",
    "mint, owner"⟩,
  ⟨"hot_token_info", "ReplacingMergeTree", "ReplacingMergeTree(updated_slot)", "mint"⟩,
  ⟨"hot_token_info_bak", "ReplacingMergeTree", "ReplacingMergeTree(updated_slot)", "mint"⟩]

def required_table_names : List String := required_table_specs.map RequiredTableSpec.name

def RAW_ACCOUNT : List (String × String) := [
  ("pubkey", "String"), ("owner", "LowCardinality(String)"), ("lamports", "UInt64"),
  ("data_len", "UInt64"), ("executable", "Bool"), ("updated_slot", "UInt64")]

def RAW_TOKEN_MINT : List (String × String) := [
  ("mint", "String"), ("mint_authority", "Nullable(String)"), ("supply", "UInt64"),
  ("decimals", "UInt8"), ("is_initialized", "Bool"), ("freeze_authority", "Nullable(String)"),
  ("updated_slot", "UInt64")]

def RAW_TOKEN_METADATA : List (String × String) := [
  ("mint", "String"), ("name", "String"), ("symbol", "String"), ("uri", "String"),
  ("update_authority", "LowCardinality(String)"), ("is_mutable", "Bool"),
  ("token_standard", "Nullable(UInt8)"), ("seller_fee_basis_points", "UInt16"),
  ("creators", "Array(String)"), ("extensions", "String"), ("updated_slot", "UInt64")]

def HOT_TOKEN : List (String × String) := [
  ("mint", "String"), ("enable", "UInt8"), ("version", "UInt64")]

def HOT_TOKEN_ACCOUNT_STATE : List (String × String) := [
  ("pubkey", "String"), ("mint", "String"), ("owner", "String"), ("amount", "UInt64"),
  ("delegate", "Nullable(String)"), ("delegated_amount", "UInt64"), ("state", "Enum8"),
  ("close_authority", "Nullable(String)"), ("is_deleted", "UInt8"), ("updated_slot", "UInt64")]

def HOT_WALLET_TOKEN_BALANCE : List (String × String) := [
  ("mint", "String"), ("owner", "String"), ("amount_raw", "UInt64"), ("updated_slot", "UInt64")]

def HOT_TOKEN_INFO : List (String × String) := [
  ("mint", "String"), ("decimals", "UInt8"), ("supply_raw", "UInt64"), ("name", "String"),
  ("symbol", "String"), ("uri", "String"), ("token_standard", "Nullable(UInt8)"),
  ("extensions", "String"), ("mint_updated_slot", "UInt64"), ("metadata_updated_slot", "UInt64"),
  ("updated_slot", "UInt64")]

/-- The columns of each of the tables. -/
def columns_of (tables : List String) (columns : List (String × String)) :
    List (String × String × String) :=
  tables.flatMap fun table => columns.map fun column => (table, column)

def required_columns : List (String × String × String) :=
  columns_of ["raw_account", "raw_account_bak"] RAW_ACCOUNT ++
  columns_of ["raw_token_mint", "raw_token_mint_bak"] RAW_TOKEN_MINT ++
  columns_of ["raw_token_metadata", "raw_token_metadata_bak"] RAW_TOKEN_METADATA ++
  columns_of ["hot_token"] HOT_TOKEN ++
  columns_of ["hot_token_account_state", "hot_token_account_state_bak"] HOT_TOKEN_ACCOUNT_STATE ++
  columns_of ["hot_wallet_token_balance", "hot_wallet_token_balance_bak"]
    HOT_WALLET_TOKEN_BALANCE ++
  columns_of ["hot_token_info", "hot_token_info_bak"] HOT_TOKEN_INFO ++
  [("hot_token_enabled", "mint", "String"), ("hot_token_enabled", "version", "UInt64")]

/-- The two loops over projections, with the sorting keys they expect. -/
def required_projections : List (String × String × String) :=
  columns_of ["hot_token_account_state", "hot_token_account_state_bak"]
    [("proj_by_pair", "mint, owner, pubkey")] ++
  columns_of ["hot_wallet_token_balance", "hot_wallet_token_balance_bak"]
    [("proj_by_mint_amount", "mint, amount_raw, owner"), ("proj_by_owner", "owner, mint")]

def actual_type_matches (actual expected : String) : Bool :=
  if expected = "Enum8" then "Enum8".toList <+: actual.toList
  else if expected = "DateTime64" then "DateTime64".toList <+: actual.toList
  else actual = expected

/-! ## The check -/

inductive SchemaError
  | missing_table (name : String)
  | engine (name actual expected : String)
  | engine_full (name actual expected_prefix : String)
  | sorting_key (name actual expected : String)
  | projection_mode (name : String)
  | missing_column (table column : String)
  | column_type (table column actual expected : String)
  | missing_projection (table projection : String)
  | projection_key (table projection actual expected : String)
deriving DecidableEq, Repr

def SchemaError.message : SchemaError → String
  | missing_table name => s!"missing table solana.{name}"
  | engine name actual expected => s!"table solana.{name} uses engine {actual}, expected {expected}"
  | engine_full name actual expected_prefix =>
      s!"table solana.{name} uses engine definition {actual}, expected prefix {expected_prefix}"
  | sorting_key name actual expected =>
      s!"table solana.{name} uses sorting key {actual}, expected {expected}"
  | projection_mode name =>
      s!"table solana.{name} must set deduplicate_merge_projection_mode = 'rebuild'"
  | missing_column table column => s!"missing column solana.{table}.{column}"
  | column_type table column actual expected =>
      s!"column solana.{table}.{column} uses type {actual}, expected {expected}"
  | missing_projection table projection => s!"missing projection solana.{table}.{projection}"
  | projection_key table projection actual expected =>
      s!"projection solana.{table}.{projection} uses sorting key {actual}, expected {expected}"

/-- The `HashMap` that rows are inserted into: the last row with a key stays. -/
def collect {R K V : Type} [DecidableEq K] (key : R → K) (value : R → V) (rows : List R) (k : K) :
    Option V :=
  (rows.reverse.find? fun row => key row = k).map value

def reported (wrong : Prop) [Decidable wrong] (error : SchemaError) : List SchemaError :=
  if wrong then [error] else []

def table_errors (spec : RequiredTableSpec) : Option SystemTableRow → List SchemaError
  | none => [.missing_table spec.name]
  | some definition =>
      reported (definition.engine ≠ spec.engine)
        (.engine spec.name definition.engine spec.engine) ++
      reported (spec.engine_full_prefix ≠ "" ∧
          ¬ spec.engine_full_prefix.toList <+: definition.engine_full.toList)
        (.engine_full spec.name definition.engine_full spec.engine_full_prefix) ++
      reported (spec.sorting_key ≠ "" ∧
          normalize_sorting_key definition.sorting_key ≠ normalize_sorting_key spec.sorting_key)
        (.sorting_key spec.name definition.sorting_key spec.sorting_key) ++
      reported (requires_rebuild_projection_mode spec.name = true ∧
          table_has_rebuild_projection_mode definition.create_table_query = false)
        (.projection_mode spec.name)

def column_errors (table column expected : String) : Option String → List SchemaError
  | none => [.missing_column table column]
  | some actual =>
      reported (actual_type_matches actual expected = false)
        (.column_type table column actual expected)

def projection_errors (table projection expected : String) : Option String → List SchemaError
  | none => [.missing_projection table projection]
  | some actual =>
      reported (normalize_sorting_key actual ≠ normalize_sorting_key expected)
        (.projection_key table projection actual expected)

def schema_errors (table_rows : List SystemTableRow) (column_rows : List SystemColumnRow)
    (projection_rows : List SystemProjectionRow) : List SchemaError :=
  let table_definitions := collect SystemTableRow.name id table_rows
  let columns := collect (fun row : SystemColumnRow => (row.table, row.name))
    SystemColumnRow.column_type column_rows
  let projections := collect (fun row : SystemProjectionRow => (row.table, row.name))
    SystemProjectionRow.sorting_key projection_rows
  (required_table_specs.flatMap fun spec => table_errors spec (table_definitions spec.name)) ++
  (required_columns.flatMap fun required =>
    column_errors required.1 required.2.1 required.2.2 (columns (required.1, required.2.1))) ++
  required_projections.flatMap fun required =>
    projection_errors required.1 required.2.1 required.2.2 (projections (required.1, required.2.1))

def read_error (table err : String) : String :=
  s!"ClickHouse schema check failed while reading system.{table}: {err}"

/-- The lines of the report are sorted. -/
def validate_clickhouse_schema (tables : Except String (List SystemTableRow))
    (columns : Except String (List SystemColumnRow))
    (projections : Except String (List SystemProjectionRow)) : Except String Unit := do
  let table_rows ← tables.mapError (read_error "tables")
  let column_rows ← columns.mapError (read_error "columns")
  let projection_rows ← projections.mapError (read_error "projections")
  let errors := (schema_errors table_rows column_rows projection_rows).map SchemaError.message
  if errors = [] then .ok ()
  else
    let lines := (errors.mergeSort fun a b => decide (a ≤ b)).map ("  - " ++ ·)
    .error ("ClickHouse schema validation failed; refusing to process snapshots:\n" ++
      "\n".intercalate lines)

/-! ## The tables behind the names -/

/-- A table as ClickHouse keeps it, whatever it is called. -/
structure TableSchema where
  engine : String
  sorting_key : String
  engine_full : String
  /-- The definition after the name and the opening bracket. -/
  body : String
  columns : List (String × String)
  projections : List (String × String)
  columns_once : (columns.map Prod.fst).Nodup
  projections_once : (projections.map Prod.fst).Nodup

def TableSchema.create_table_query (schema : TableSchema) (name : String) : String :=
  (if schema.engine = "View" then "CREATE VIEW solana." else "CREATE TABLE solana.") ++ name ++
    " (" ++ schema.body

def TableSchema.row (schema : TableSchema) (name : String) : SystemTableRow :=
  ⟨name, schema.engine, schema.sorting_key, schema.engine_full, schema.create_table_query name⟩

/-- What the three queries list for the tables of a catalog, in any order. -/
structure Answers (catalog : String → Option TableSchema) (table_rows : List SystemTableRow)
    (column_rows : List SystemColumnRow) (projection_rows : List SystemProjectionRow) : Prop where
  tables : ∀ row, row ∈ table_rows ↔ row.name ∈ required_table_names ∧
    ∃ schema, catalog row.name = some schema ∧ row = schema.row row.name
  columns : ∀ row, row ∈ column_rows ↔ row.table ∈ required_table_names ∧
    ∃ schema, catalog row.table = some schema ∧ (row.name, row.column_type) ∈ schema.columns
  projections : ∀ row, row ∈ projection_rows ↔ row.table ∈ required_table_names ∧
    ∃ schema, catalog row.table = some schema ∧ (row.name, row.sorting_key) ∈ schema.projections

/-- The tables of both generations, and the ones of no group. -/
structure Database where
  physical : GroupTable → Generation → Option TableSchema
  other : String → Option TableSchema

def group_tables : List GroupTable :=
  [.raw_account, .raw_token_mint, .raw_token_metadata, .hot_token_account_state, .hot_token_info,
    .hot_wallet_token_balance]

/-- The group and the table that a name is of. -/
def group_table (name : String) : Option (TableGroup × GroupTable) :=
  (group_tables.flatMap fun base => [(TableGroup.Active, base), (TableGroup.Backup, base)]).find?
    fun t => t.1.table t.2.base = name

/-- The tables by their names, where these are on `tables`. -/
def Database.catalog (db : Database) (tables : TableGroupIdentity) (name : String) :
    Option TableSchema :=
  match group_table name with
  | some (.Active, base) => db.physical base (tables base)
  | some (.Backup, base) => db.physical base (tables base).other
  | none => db.other name

/-! ## What a table needs -/

structure Requirement where
  engine : String
  engine_full_prefix : String
  sorting_key : String
  rebuild : Bool
  columns : List (String × String)
  projections : List (String × String)
deriving DecidableEq

/-- All that is asked for under a name, without the name. -/
def requirement (spec : RequiredTableSpec) : Requirement where
  engine := spec.engine
  engine_full_prefix := spec.engine_full_prefix
  sorting_key := spec.sorting_key
  rebuild := requires_rebuild_projection_mode spec.name
  columns := (required_columns.filter fun required => required.1 = spec.name).map Prod.snd
  projections := (required_projections.filter fun required => required.1 = spec.name).map Prod.snd

structure TableSchema.Meets (schema : TableSchema) (r : Requirement) : Prop where
  engine : schema.engine = r.engine
  engine_full : r.engine_full_prefix ≠ "" →
    r.engine_full_prefix.toList <+: schema.engine_full.toList
  sorting_key : r.sorting_key ≠ "" →
    normalize_sorting_key schema.sorting_key = normalize_sorting_key r.sorting_key
  rebuild : r.rebuild = true → table_has_rebuild_projection_mode schema.body = true
  columns : ∀ column ∈ r.columns, ∃ actual, (column.1, actual) ∈ schema.columns ∧
    actual_type_matches actual column.2 = true
  projections : ∀ projection ∈ r.projections, ∃ actual,
    (projection.1, actual) ∈ schema.projections ∧
      normalize_sorting_key actual = normalize_sorting_key projection.2

/-- The tables of either generation, and those of no group, have what is asked for under the
names of the active group, and under their own. -/
structure Database.Meets (db : Database) : Prop where
  group : ∀ spec ∈ required_table_specs, ∀ base : GroupTable, spec.name = base.base → ∀ g,
    ∃ schema, db.physical base g = some schema ∧ schema.Meets (requirement spec)
  other : ∀ spec ∈ required_table_specs, group_table spec.name = none →
    ∃ schema, db.other spec.name = some schema ∧ schema.Meets (requirement spec)

/-! ## Texts with a name in them -/

/-- A pattern does not reach over a symbol that it does not have. -/
theorem infix_append_cons_iff {α : Type} {pattern left right : List α} {c : α} (hc : c ∉ pattern) :
    pattern <:+: left ++ c :: right ↔ pattern <:+: left ∨ pattern <:+: right := by
  constructor
  · rintro ⟨before, after, heq⟩
    rw [List.append_assoc] at heq
    rcases List.append_eq_append_iff.mp heq with ⟨middle, rfl, hrest⟩ | ⟨middle, rfl, hrest⟩
    · -- the pattern begins in the text on the left
      rcases List.append_eq_append_iff.mp hrest with ⟨rest, rfl, -⟩ | ⟨rest, rfl, hright⟩
      · exact .inl ⟨before, rest, by rw [List.append_assoc]⟩
      · cases rest with
        | nil => exact .inl ⟨before, [], by simp⟩
        | cons d rest =>
            obtain ⟨rfl, -⟩ := List.cons.inj hright
            exact absurd (by simp) hc
    · cases middle with
      | nil =>
          cases pattern with
          | nil => exact .inl List.nil_infix
          | cons d pattern =>
              obtain ⟨rfl, -⟩ := List.cons.inj hrest
              exact absurd List.mem_cons_self hc
      | cons d middle =>
          obtain ⟨rfl, hright⟩ := List.cons.inj hrest
          exact .inr ⟨middle, after, (List.append_assoc ..).trans hright.symm⟩
  · rintro (h | h)
    · exact h.trans (List.prefix_append _ _).isInfix
    · exact h.trans ((List.suffix_cons c right).trans (List.suffix_append left _)).isInfix

/-- Texts are normalised one after the other. -/
theorem normalized_append (text text' : String) :
    normalized_query (text ++ text') = normalized_query text ++ normalized_query text' := by
  simp [normalized_query]

/-- No name is asked for twice or takes part in the pattern, and the two groups are asked for
the same. -/
theorem required_lists : (required_table_specs.map RequiredTableSpec.name).Nodup ∧
    (∀ name ∈ required_table_names, '=' ∉ normalized_query name) ∧
    ∀ base ∈ group_tables, ∃ spec ∈ required_table_specs, ∃ spec' ∈ required_table_specs,
      spec.name = base.base ∧ spec'.name = TableGroup.Backup.table base.base ∧
        requirement spec' = requirement spec := by
  -- the lists are evaluated here only
  decide +kernel

/-- No name that is asked for takes part in the pattern. -/
theorem normalized_name {name : String} (h : name ∈ required_table_names) :
    '=' ∉ normalized_query name :=
  required_lists.2.1 name h

/-- The setting is found in the definition, under whatever name it is. -/
theorem rebuild_of_name (schema : TableSchema) {name : String} (h : name ∈ required_table_names) :
    table_has_rebuild_projection_mode (schema.create_table_query name)
      = table_has_rebuild_projection_mode schema.body := by
  have hbracket : '(' ∉ REBUILD_PROJECTION_MODE.toList := by simp [REBUILD_PROJECTION_MODE]
  have hequal : '=' ∈ REBUILD_PROJECTION_MODE.toList := by simp [REBUILD_PROJECTION_MODE]
  have hopen : normalized_query " (" = ['('] := by simp [normalized_query, is_ascii_whitespace]
  unfold table_has_rebuild_projection_mode TableSchema.create_table_query
  rw [decide_eq_decide, normalized_append, normalized_append, hopen, List.append_assoc,
    List.singleton_append, infix_append_cons_iff hbracket, or_iff_right]
  rintro hinfix
  have hmem := hinfix.subset hequal
  rw [normalized_append, List.mem_append] at hmem
  rcases hmem with hmem | hmem
  · split at hmem
    · exact absurd hmem (by simp [normalized_query, is_ascii_whitespace])
    · exact absurd hmem (by simp [normalized_query, is_ascii_whitespace])
  · exact normalized_name h hmem

/-! ## What the rows say -/

section Collect

variable {R K V : Type} [DecidableEq K] {key : R → K} {value : R → V} {rows : List R}

/-- With one value a key, the map has what the rows have. -/
theorem collect_eq_some
    (h : ∀ row ∈ rows, ∀ row' ∈ rows, key row = key row' → value row = value row') {k : K} {v : V} :
    collect key value rows k = some v ↔ ∃ row ∈ rows, key row = k ∧ value row = v := by
  unfold collect
  constructor
  · intro hfound
    obtain ⟨row, hrow, rfl⟩ := Option.map_eq_some_iff.mp hfound
    refine ⟨row, List.mem_reverse.mp (List.mem_of_find?_eq_some hrow), ?_, rfl⟩
    simpa using List.find?_some hrow
  · rintro ⟨row, hrow, rfl, rfl⟩
    cases hfound : rows.reverse.find? fun other => key other = key row with
    | none =>
        have hnone := List.find?_eq_none.mp hfound row (List.mem_reverse.mpr hrow)
        simp at hnone
    | some other =>
        have hkey : key other = key row := by simpa using List.find?_some hfound
        have hother := List.mem_reverse.mp (List.mem_of_find?_eq_some hfound)
        rw [Option.map_some, h other hother row hrow hkey]

end Collect

section Answered

variable {catalog : String → Option TableSchema} {table_rows : List SystemTableRow}
  {column_rows : List SystemColumnRow} {projection_rows : List SystemProjectionRow}

/-- The rows of a good answer give the definition of each required table. -/
theorem Answers.definition (h : Answers catalog table_rows column_rows projection_rows)
    {name : String} (hname : name ∈ required_table_names) :
    collect SystemTableRow.name id table_rows name
      = (catalog name).map fun schema => schema.row name := by
  have honce : ∀ row ∈ table_rows, ∀ row' ∈ table_rows, row.name = row'.name →
      id row = id row' := by
    intro row hrow row' hrow' hsame
    obtain ⟨-, schema, hschema, heq⟩ := (h.tables row).mp hrow
    obtain ⟨-, schema', hschema', heq'⟩ := (h.tables row').mp hrow'
    rw [← hsame, hschema] at hschema'
    obtain rfl := Option.some.inj hschema'
    exact heq.trans (hsame ▸ heq'.symm)
  ext row
  rw [collect_eq_some honce, Option.map_eq_some_iff]
  constructor
  · rintro ⟨row, hrow, rfl, rfl⟩
    obtain ⟨-, schema, hschema, heq⟩ := (h.tables row).mp hrow
    exact ⟨schema, hschema, heq.symm⟩
  · rintro ⟨schema, hschema, rfl⟩
    exact ⟨schema.row name, (h.tables _).mpr ⟨hname, schema, hschema, rfl⟩, rfl, rfl⟩

/-- A key of rows whose keys differ has one value. -/
theorem value_unique {pairs : List (String × String)} (h : (pairs.map Prod.fst).Nodup)
    {name value value' : String} (hmem : (name, value) ∈ pairs) (hmem' : (name, value') ∈ pairs) :
    value = value' :=
  congrArg Prod.snd (List.inj_on_of_nodup_map h hmem hmem' rfl)

/-- Columns and projections: rows of a table, a name and a value. -/
theorem collect_listed {R : Type} {rows : List R} {table name value : R → String}
    {listed : TableSchema → List (String × String)}
    (honce : ∀ schema, ((listed schema).map Prod.fst).Nodup)
    (h : ∀ row ∈ rows, ∃ schema, catalog (table row) = some schema ∧
      (name row, value row) ∈ listed schema)
    (h' : ∀ key schema entry, key ∈ required_table_names → catalog key = some schema →
      entry ∈ listed schema → ∃ row ∈ rows, (table row, name row) = (key, entry.1) ∧
        value row = entry.2)
    {key column actual : String} (hkey : key ∈ required_table_names) :
    collect (fun row => (table row, name row)) value rows (key, column) = some actual ↔
      ∃ schema, catalog key = some schema ∧ (column, actual) ∈ listed schema := by
  rw [collect_eq_some]
  · constructor
    · rintro ⟨row, hrow, heq, rfl⟩
      obtain ⟨rfl, rfl⟩ := Prod.mk.inj heq
      exact h row hrow
    · rintro ⟨schema, hschema, hmem⟩
      exact h' key schema (column, actual) hkey hschema hmem
  · intro row hrow row' hrow' hsame
    obtain ⟨htables, hnames⟩ := Prod.mk.inj hsame
    obtain ⟨schema, hschema, hmem⟩ := h row hrow
    obtain ⟨schema', hschema', hmem'⟩ := h row' hrow'
    rw [← htables, hschema] at hschema'
    obtain rfl := Option.some.inj hschema'
    exact value_unique (honce schema) hmem (hnames ▸ hmem')

/-- They give the type of each column of a required table. -/
theorem Answers.column (h : Answers catalog table_rows column_rows projection_rows)
    {table column actual : String} (htable : table ∈ required_table_names) :
    collect (fun row : SystemColumnRow => (row.table, row.name)) SystemColumnRow.column_type
        column_rows (table, column) = some actual ↔
      ∃ schema, catalog table = some schema ∧ (column, actual) ∈ schema.columns :=
  collect_listed TableSchema.columns_once (fun row hrow => ((h.columns row).mp hrow).2)
    (fun key schema entry hkey hschema hmem => ⟨⟨key, entry.1, entry.2⟩,
      (h.columns _).mpr ⟨hkey, schema, hschema, hmem⟩, rfl, rfl⟩) htable

/-- And the text of each of its projections. -/
theorem Answers.projection (h : Answers catalog table_rows column_rows projection_rows)
    {table projection actual : String} (htable : table ∈ required_table_names) :
    collect (fun row : SystemProjectionRow => (row.table, row.name)) SystemProjectionRow.sorting_key
        projection_rows (table, projection) = some actual ↔
      ∃ schema, catalog table = some schema ∧ (projection, actual) ∈ schema.projections :=
  collect_listed TableSchema.projections_once (fun row hrow => ((h.projections row).mp hrow).2)
    (fun key schema entry hkey hschema hmem => ⟨⟨key, entry.1, entry.2⟩,
      (h.projections _).mpr ⟨hkey, schema, hschema, hmem⟩, rfl, rfl⟩) htable

end Answered

/-! ## What the check decides -/

/-- Nothing is reported exactly where nothing is wrong. -/
theorem reported_eq_nil {wrong : Prop} [Decidable wrong] {error : SchemaError} :
    reported wrong error = [] ↔ ¬ wrong := by
  unfold reported
  split
  · next h => simp [h]
  · next h => simp [h]

/-- No error about a table exactly where engine, keys and clauses are the required ones. -/
theorem table_errors_eq_nil {spec : RequiredTableSpec} (hspec : spec ∈ required_table_specs)
    (schema : TableSchema) : table_errors spec (some (schema.row spec.name)) = [] ↔
      schema.engine = spec.engine ∧
      (spec.engine_full_prefix ≠ "" →
        spec.engine_full_prefix.toList <+: schema.engine_full.toList) ∧
      (spec.sorting_key ≠ "" →
        normalize_sorting_key schema.sorting_key = normalize_sorting_key spec.sorting_key) ∧
      (requires_rebuild_projection_mode spec.name = true →
        table_has_rebuild_projection_mode schema.body = true) := by
  have hname : spec.name ∈ required_table_names := List.mem_map_of_mem hspec
  simp only [table_errors, List.append_eq_nil_iff, reported_eq_nil, and_assoc]
  simp only [TableSchema.row, rebuild_of_name schema hname, not_and, not_not, Bool.not_eq_false,
    ne_eq]

/-- No error about a column exactly where it is there with a matching type. -/
theorem column_errors_eq_nil {table column expected : String} {found : Option String} :
    column_errors table column expected found = [] ↔
      ∃ actual, found = some actual ∧ actual_type_matches actual expected = true := by
  cases found with
  | none => simp [column_errors]
  | some actual => simp [column_errors, reported_eq_nil]

/-- No error about a projection exactly where it is there with the same normalised text. -/
theorem projection_errors_eq_nil {table projection expected : String} {found : Option String} :
    projection_errors table projection expected found = [] ↔ ∃ actual, found = some actual ∧
      normalize_sorting_key actual = normalize_sorting_key expected := by
  cases found with
  | none => simp [projection_errors]
  | some actual => simp [projection_errors, reported_eq_nil]

/-- The columns that are checked belong to required tables. -/
theorem columns_of_required {tables : List String} {columns : List (String × String)}
    (h : tables ⊆ required_table_names) :
    ∀ required ∈ columns_of tables columns, required.1 ∈ required_table_names := by
  intro required hmem
  obtain ⟨table, htable, hmem⟩ := List.mem_flatMap.mp hmem
  obtain ⟨column, -, rfl⟩ := List.mem_map.mp hmem
  exact h htable

/-- Columns and projections are asked for of the required tables only. -/
theorem required_of_tables : (∀ required ∈ required_columns, required.1 ∈ required_table_names) ∧
    ∀ required ∈ required_projections, required.1 ∈ required_table_names := by
  simp only [required_columns, required_projections, List.forall_mem_append]
  refine ⟨⟨⟨⟨⟨⟨⟨⟨?_, ?_⟩, ?_⟩, ?_⟩, ?_⟩, ?_⟩, ?_⟩, ?_⟩, ?_, ?_⟩
  case refine_8 => simp [required_table_names, required_table_specs]
  all_goals exact columns_of_required (by simp [required_table_names, required_table_specs])

/-- There is nothing to report where the table under each name has what is asked for. -/
theorem schema_errors_eq_nil_iff {catalog : String → Option TableSchema}
    {table_rows : List SystemTableRow} {column_rows : List SystemColumnRow}
    {projection_rows : List SystemProjectionRow}
    (h : Answers catalog table_rows column_rows projection_rows) :
    schema_errors table_rows column_rows projection_rows = [] ↔
      ∀ spec ∈ required_table_specs, ∃ schema, catalog spec.name = some schema ∧
        schema.Meets (requirement spec) := by
  obtain ⟨hcolumns, hprojections⟩ := required_of_tables
  simp only [schema_errors, List.append_eq_nil_iff, List.flatMap_eq_nil_iff,
    column_errors_eq_nil, projection_errors_eq_nil]
  constructor
  -- without errors: each required table has the schema its rows describe
  · rintro ⟨⟨hdefinitions, hcolumn⟩, hprojection⟩ spec hspec
    have hname : spec.name ∈ required_table_names := List.mem_map_of_mem hspec
    have hdefinition := hdefinitions spec hspec
    rw [h.definition hname] at hdefinition
    cases hschema : catalog spec.name with
    | none =>
        rw [hschema] at hdefinition
        cases hdefinition
    | some schema =>
        rw [hschema, Option.map_some, table_errors_eq_nil hspec] at hdefinition
        obtain ⟨hengine, hfull, hkey, hrebuild⟩ := hdefinition
        refine ⟨schema, rfl, hengine, hfull, hkey, hrebuild, ?_, ?_⟩
        · intro column hmem
          obtain ⟨required, hrequired, rfl⟩ := List.mem_map.mp hmem
          obtain ⟨hrequired, htable⟩ := List.mem_filter.mp hrequired
          obtain ⟨actual, hactual, hmatches⟩ := hcolumn required hrequired
          obtain ⟨schema', hschema', hlisted⟩ :=
            (h.column (hcolumns required hrequired)).mp hactual
          rw [of_decide_eq_true htable, hschema] at hschema'
          obtain rfl := Option.some.inj hschema'
          exact ⟨actual, hlisted, hmatches⟩
        · intro projection hmem
          obtain ⟨required, hrequired, rfl⟩ := List.mem_map.mp hmem
          obtain ⟨hrequired, htable⟩ := List.mem_filter.mp hrequired
          obtain ⟨actual, hactual, hmatches⟩ := hprojection required hrequired
          obtain ⟨schema', hschema', hlisted⟩ :=
            (h.projection (hprojections required hrequired)).mp hactual
          rw [of_decide_eq_true htable, hschema] at hschema'
          obtain rfl := Option.some.inj hschema'
          exact ⟨actual, hlisted, hmatches⟩
  -- the other way: a schema that meets its requirement leaves nothing to report
  · intro hmeets
    refine ⟨⟨?_, ?_⟩, ?_⟩
    · intro spec hspec
      obtain ⟨schema, hschema, hmeet⟩ := hmeets spec hspec
      rw [h.definition (List.mem_map_of_mem hspec), hschema, Option.map_some,
        table_errors_eq_nil hspec]
      exact ⟨hmeet.engine, hmeet.engine_full, hmeet.sorting_key, hmeet.rebuild⟩
    · intro required hrequired
      obtain ⟨spec, hspec, hname⟩ := List.mem_map.mp (hcolumns required hrequired)
      obtain ⟨schema, hschema, hmeet⟩ := hmeets spec hspec
      obtain ⟨actual, hlisted, hmatches⟩ := hmeet.columns required.2
        (List.mem_map_of_mem (List.mem_filter.mpr ⟨hrequired, by simp [hname]⟩))
      refine ⟨actual, (h.column (hcolumns required hrequired)).mpr ⟨schema, ?_, hlisted⟩, hmatches⟩
      rw [← hname, hschema]
    · intro required hrequired
      obtain ⟨spec, hspec, hname⟩ := List.mem_map.mp (hprojections required hrequired)
      obtain ⟨schema, hschema, hmeet⟩ := hmeets spec hspec
      obtain ⟨actual, hlisted, hmatches⟩ := hmeet.projections required.2
        (List.mem_map_of_mem (List.mem_filter.mpr ⟨hrequired, by simp [hname]⟩))
      refine ⟨actual,
        (h.projection (hprojections required hrequired)).mpr ⟨schema, ?_, hlisted⟩, hmatches⟩
      rw [← hname, hschema]

/-! ## Names and tables -/

theorem mem_group_tables (base : GroupTable) : base ∈ group_tables := by
  cases base <;> decide

/-- A table's name gives its group and its base back. -/
theorem group_table_table (group : TableGroup) (base : GroupTable) :
    group_table (group.table base.base) = some (group, base) := by
  cases group <;> cases base <;> decide +kernel

/-- And a group's table has the name it was found under. -/
theorem table_of_group_table {name : String} {group : TableGroup} {base : GroupTable}
    (h : group_table name = some (group, base)) : group.table base.base = name := by
  simpa using List.find?_some h

theorem active_table (base : GroupTable) : TableGroup.Active.table base.base = base.base :=
  String.append_empty

/-- No name is asked for twice. -/
theorem spec_unique {spec spec' : RequiredTableSpec} (h : spec ∈ required_table_specs)
    (h' : spec' ∈ required_table_specs) (hname : spec.name = spec'.name) : spec = spec' :=
  List.inj_on_of_nodup_map required_lists.1 h h' hname

/-- Every required table meets its requirement exactly where the database does, whatever
state an exchange is in. -/
theorem meets_iff (db : Database) (tables : TableGroupIdentity) :
    (∀ spec ∈ required_table_specs, ∃ schema, db.catalog tables spec.name = some schema ∧
      schema.Meets (requirement spec)) ↔ db.Meets := by
  constructor
  · intro h
    refine ⟨fun spec hspec base hbase g => ?_, fun spec hspec hother => ?_⟩
    · obtain ⟨spec₁, hspec₁, spec₂, hspec₂, hname₁, hname₂, hsame⟩ :=
        required_lists.2.2 base (mem_group_tables base)
      obtain rfl := spec_unique hspec hspec₁ (hbase.trans hname₁.symm)
      -- the table is under one of the two names
      by_cases hg : g = tables base
      · obtain ⟨schema, hschema, hmeets⟩ := h spec hspec
        refine ⟨schema, ?_, hmeets⟩
        rw [hbase, ← active_table, Database.catalog, group_table_table] at hschema
        exact hg ▸ hschema
      · obtain ⟨schema, hschema, hmeets⟩ := h spec₂ hspec₂
        have hg := (Generation.eq_or_other g (tables base)).resolve_left hg
        refine ⟨schema, ?_, hsame ▸ hmeets⟩
        rw [hname₂, Database.catalog, group_table_table] at hschema
        exact hg ▸ hschema
    · have hschema := h spec hspec
      unfold Database.catalog at hschema
      rw [hother] at hschema
      exact hschema
  · intro h spec hspec
    unfold Database.catalog
    cases htable : group_table spec.name with
    | none => exact h.other spec hspec htable
    | some found =>
        obtain ⟨group, base⟩ := found
        have hname := table_of_group_table htable
        obtain ⟨spec₁, hspec₁, spec₂, hspec₂, hname₁, hname₂, hsame⟩ :=
          required_lists.2.2 base (mem_group_tables base)
        have hgroup := h.group spec₁ hspec₁ base hname₁
        cases group with
        | Active =>
            obtain rfl := spec_unique hspec hspec₁ (by rw [← hname, hname₁, active_table])
            exact hgroup _
        | Backup =>
            obtain rfl := spec_unique hspec hspec₂ (by rw [← hname, hname₂])
            rw [hsame]
            exact hgroup _

/-- **The check of the schema decides a fact of the tables.** However the names stand
between the two generations, and in whatever order the rows come, it passes exactly where
the tables of both have what their kind needs. -/
theorem schema_check_iff {db : Database} {tables : TableGroupIdentity}
    {table_rows : List SystemTableRow} {column_rows : List SystemColumnRow}
    {projection_rows : List SystemProjectionRow}
    (h : Answers (db.catalog tables) table_rows column_rows projection_rows) :
    validate_clickhouse_schema (.ok table_rows) (.ok column_rows) (.ok projection_rows) = .ok () ↔
      db.Meets := by
  rw [← meets_iff db tables, ← schema_errors_eq_nil_iff h]
  change (if _ = [] then _ else _) = _ ↔ _
  split
  · next hnone => exact iff_of_true rfl (List.map_eq_nil_iff.mp hnone)
  · next hsome => exact iff_of_false nofun fun hnone => hsome (hnone ▸ rfl)

/-! ## Answers, and a database that passes -/

def listed_tables (catalog : String → Option TableSchema) : List SystemTableRow :=
  required_table_names.filterMap fun name => (catalog name).map fun schema => schema.row name

def listed_columns (catalog : String → Option TableSchema) : List SystemColumnRow :=
  required_table_names.flatMap fun name => ((catalog name).toList.flatMap TableSchema.columns).map
    fun column => ⟨name, column.1, column.2⟩

def listed_projections (catalog : String → Option TableSchema) : List SystemProjectionRow :=
  required_table_names.flatMap fun name =>
    ((catalog name).toList.flatMap TableSchema.projections).map
      fun projection => ⟨name, projection.1, projection.2⟩

/-- The rows listed from a catalog answer for it. -/
theorem answers_listed (catalog : String → Option TableSchema) :
    Answers catalog (listed_tables catalog) (listed_columns catalog)
      (listed_projections catalog) where
  tables row := by
    constructor
    · intro hrow
      obtain ⟨name, hname, hrow⟩ := List.mem_filterMap.mp hrow
      obtain ⟨schema, hschema, rfl⟩ := Option.map_eq_some_iff.mp hrow
      exact ⟨hname, schema, hschema, rfl⟩
    · rintro ⟨hname, schema, hschema, heq⟩
      exact List.mem_filterMap.mpr ⟨row.name, hname, by rw [hschema, Option.map_some, ← heq]⟩
  columns row := by
    simp only [listed_columns, List.mem_flatMap, List.mem_map, Option.mem_toList]
    constructor
    · rintro ⟨name, hname, column, ⟨schema, hschema, hcolumn⟩, rfl⟩
      exact ⟨hname, schema, hschema, hcolumn⟩
    · rintro ⟨hname, schema, hschema, hcolumn⟩
      exact ⟨row.table, hname, _, ⟨schema, hschema, hcolumn⟩, rfl⟩
  projections row := by
    simp only [listed_projections, List.mem_flatMap, List.mem_map, Option.mem_toList]
    constructor
    · rintro ⟨name, hname, projection, ⟨schema, hschema, hprojection⟩, rfl⟩
      exact ⟨hname, schema, hschema, hprojection⟩
    · rintro ⟨hname, schema, hschema, hprojection⟩
      exact ⟨row.table, hname, _, ⟨schema, hschema, hprojection⟩, rfl⟩

/-- A table with just what is asked for. -/
def Requirement.least (r : Requirement) : Option TableSchema :=
  if h : (r.columns.map Prod.fst).Nodup ∧ (r.projections.map Prod.fst).Nodup then
    some ⟨r.engine, r.sorting_key, r.engine_full_prefix,
      "pubkey String) SETTINGS deduplicate_merge_projection_mode = 'rebuild'",
      r.columns, r.projections, h.1, h.2⟩
  else none

/-- A type matches itself. -/
theorem matches_self (expected : String) : actual_type_matches expected expected = true := by
  unfold actual_type_matches
  split
  · next h => rw [h]; exact decide_eq_true List.prefix_rfl
  · split
    · next h => rw [h]; exact decide_eq_true List.prefix_rfl
    · simp

/-- The least schema of a requirement meets it. -/
theorem meets_least {r : Requirement} {schema : TableSchema} (h : r.least = some schema) :
    schema.Meets r := by
  unfold Requirement.least at h
  split at h
  · obtain rfl := Option.some.inj h
    have hrebuild : table_has_rebuild_projection_mode
        "pubkey String) SETTINGS deduplicate_merge_projection_mode = 'rebuild'" = true := by
      decide +kernel
    exact ⟨rfl, fun _ => List.prefix_rfl, fun _ => rfl, fun _ => hrebuild,
      fun column hmem => ⟨column.2, hmem, matches_self _⟩, fun projection hmem => ⟨_, hmem, rfl⟩⟩
  · cases h

def least_of (name : String) : Option TableSchema :=
  (required_table_specs.find? fun spec => spec.name = name).bind
    fun spec => (requirement spec).least

/-- Both generations have just what is asked for. -/
def least : Database where
  physical base _ := least_of base.base
  other := least_of

/-- Every required table has a least schema. -/
theorem meets_least_of {spec : RequiredTableSpec} (hspec : spec ∈ required_table_specs) :
    ∃ schema, least_of spec.name = some schema ∧ schema.Meets (requirement spec) := by
  have hsome : (least_of spec.name).isSome = true := by
    revert spec
    decide +kernel
  obtain ⟨schema, hschema⟩ := Option.isSome_iff_exists.mp hsome
  refine ⟨schema, hschema, ?_⟩
  obtain ⟨spec', hfound, hleast⟩ := Option.bind_eq_some_iff.mp hschema
  have hname : spec'.name = spec.name := by simpa using List.find?_some hfound
  obtain rfl := spec_unique (List.mem_of_find?_eq_some hfound) hspec hname
  exact meets_least hleast

/-- Half way through an exchange. -/
def half_exchanged : TableGroupIdentity := fun base =>
  if base = .raw_account then .second else .first

theorem schema_check_iff_half_exchanged :
    validate_clickhouse_schema (.ok (listed_tables (least.catalog half_exchanged)))
      (.ok (listed_columns (least.catalog half_exchanged)))
      (.ok (listed_projections (least.catalog half_exchanged))) = .ok () := by
  refine (schema_check_iff (answers_listed _)).mpr ⟨fun spec hspec base hbase g => ?_,
    fun spec hspec _ => meets_least_of hspec⟩
  have hmeets := meets_least_of hspec
  rw [hbase] at hmeets
  exact hmeets

end SnapshotEtl.SchemaCheck
