/-
`Worker`: what the parser of one import does with a storage file.

Nothing a worker does to its sink, to the shared patch map or to its own
counters is read back while it parses, so each of its functions is the list of
operations it performs, in order; running them, with a sink that may fail, is
the business of the import modules. A function of the source that returns early
with an error of its sink is the prefix of its list up to that operation.
-/
import SnapshotEtl.Metadata
import SnapshotEtl.Decoders

set_option autoImplicit false

namespace SnapshotEtl

/-! ## Operations -/

/-- One operation on a lane: its sink, its patch map, its affected pairs, its
close candidates. -/
inductive LaneOp
  | maybe_force_commit
  | write (row : Row)
  | record_metadata_fields (mint : String) (candidate : VersionedMetadataFields)
  | record_extensions (mint : String) (candidate : VersionedExtensions)
  | remember_affected_pair (pair : TokenPair)
  | remember_close_candidate (pubkey : String) (account_slot : Slot)
deriving DecidableEq

/-- The counters of `Progress` and of `ParallelWorkerStats`. -/
inductive Counter
  | append_vecs
  | accounts
  | tokens
  | metadata
  | append_vecs_total
  | nonempty_zero_account_append_vecs
  | zero_balance_token_accounts_omitted_from_full_baseline
  | spl_token_owner_accounts_seen
  | spl_token_accounts_parsed
  | spl_token_unexpected_size
  | spl_token_unpack_failed
  | token_2022_owner_accounts_seen
  | token_2022_accounts_parsed
  | token_2022_unexpected_size
  | token_2022_unpack_failed
deriving DecidableEq, Repr

/-- One operation of an import: on the lane of a table group, or a counter
incremented. -/
inductive ImportOp
  | lane (group : TableGroup) (op : LaneOp)
  | count (counter : Counter)
deriving DecidableEq

/-! ## What a lane gets -/

/-- The operations of one lane, in order. -/
def on_lane (group : TableGroup) (ops : List ImportOp) : List LaneOp :=
  ops.filterMap fun
    | .lane g op => if g = group then some op else none
    | .count _ => none

section OnLane

variable (group : TableGroup)

@[simp] theorem on_lane_nil : on_lane group [] = [] := rfl

@[simp] theorem on_lane_count (counter : Counter) (ops : List ImportOp) :
    on_lane group (.count counter :: ops) = on_lane group ops := rfl

@[simp] theorem on_lane_lane (g : TableGroup) (op : LaneOp) (ops : List ImportOp) :
    on_lane group (.lane g op :: ops)
      = if g = group then op :: on_lane group ops else on_lane group ops := by
  by_cases h : g = group <;> simp [on_lane, h]

@[simp] theorem on_lane_append (ops ops' : List ImportOp) :
    on_lane group (ops ++ ops') = on_lane group ops ++ on_lane group ops' :=
  List.filterMap_append

theorem on_lane_ite (p : Prop) [Decidable p] (ops ops' : List ImportOp) :
    on_lane group (if p then ops else ops')
      = if p then on_lane group ops else on_lane group ops' :=
  apply_ite (on_lane group) p ops ops'

theorem on_lane_flatMap {α : Type*} (xs : List α) (f : α → List ImportOp) :
    on_lane group (xs.flatMap f) = xs.flatMap fun x => on_lane group (f x) :=
  List.filterMap_flatMap ..

end OnLane

/-- What an import holds of a lane once its stream is parsed: the rows sent to
the sink, the patches, the affected pairs and the close candidates. -/
structure LaneState where
  rows : List Row
  metadata_patches : MetadataPatches
  affected_pairs : Finset TokenPair
  closed_token_accounts : Lib.FMap String Slot

def LaneState.empty : LaneState := ⟨[], ∅, ∅, ∅⟩

/-- `remember_close_candidate`: the newest slot of a pubkey stays. -/
def remember_close_candidate (candidates : Lib.FMap String Slot) (pubkey : String)
    (account_slot : Slot) : Lib.FMap String Slot :=
  Lib.keep_max candidates pubkey account_slot

def LaneState.step (s : LaneState) : LaneOp → LaneState
  | .maybe_force_commit => s
  | .write row => { s with rows := s.rows ++ [row] }
  | .record_metadata_fields mint candidate =>
      { s with metadata_patches := record_metadata_fields s.metadata_patches mint candidate }
  | .record_extensions mint candidate =>
      { s with metadata_patches := record_extensions s.metadata_patches mint candidate }
  | .remember_affected_pair pair =>
      { s with affected_pairs := insert pair s.affected_pairs }
  | .remember_close_candidate pubkey account_slot =>
      { s with
        closed_token_accounts :=
          remember_close_candidate s.closed_token_accounts pubkey account_slot }

/-- The lane after a list of operations. -/
def lane_state (group : TableGroup) (ops : List ImportOp) : LaneState :=
  (on_lane group ops).foldl LaneState.step .empty

/-! ## Configuration -/

inductive SnapshotKind
  | Full
  | Incremental
deriving DecidableEq, Repr

inductive ZeroBalanceTokenAccountPolicy
  | ExcludeFromFullBaseline
  | Retain
deriving DecidableEq, Repr

def SnapshotKind.collect_close_tombstones : SnapshotKind → Bool
  | .Full => false
  | .Incremental => true

def SnapshotKind.zero_balance_token_account_policy :
    SnapshotKind → ZeroBalanceTokenAccountPolicy
  | .Full => .ExcludeFromFullBaseline
  | .Incremental => .Retain

def ZeroBalanceTokenAccountPolicy.writes_live_amount (policy : ZeroBalanceTokenAccountPolicy)
    (amount : ℕ) : Bool :=
  amount > 0 || policy = .Retain

/-- The fields of a `Worker` that do not change while it parses. -/
structure Worker where
  group : TableGroup
  snapshot_slot : Slot
  collect_close_tombstones : Bool
  collect_affected_pairs : Bool
  hot_mints : Finset String
  zero_balance_token_account_policy : ZeroBalanceTokenAccountPolicy
deriving DecidableEq

/-- The `Worker` that `insert_all` builds for a snapshot kind. -/
def Worker.new (group : TableGroup) (kind : SnapshotKind) (snapshot_slot : Slot)
    (hot_mints : Finset String) : Worker where
  group := group
  snapshot_slot := snapshot_slot
  collect_close_tombstones := kind.collect_close_tombstones
  collect_affected_pairs := kind = .Incremental
  hot_mints := hot_mints
  zero_balance_token_account_policy := kind.zero_balance_token_account_policy

/-! ## The parser -/

namespace Worker

variable (dec : Decoders) (w : Worker)

def record_close_candidate (account : StoredAccountMeta) (account_slot : Slot) :
    List ImportOp :=
  if w.collect_close_tombstones && is_close_tombstone_candidate account.account_meta.lamports
  then [.lane w.group
    (.remember_close_candidate (pubkey_string account.stored_meta.pubkey) account_slot)]
  else []

def remember_affected_pair (mint owner : String) : List ImportOp :=
  if w.collect_affected_pairs then [.lane w.group (.remember_affected_pair (mint, owner))]
  else []

def write_hot_token_account_row (account : StoredAccountMeta) (account_slot : Slot)
    (mint owner : String) (amount : ℕ) (delegate : Option String) (delegated_amount : ℕ)
    (state : ℕ) (close_authority : Option String) : List ImportOp :=
  if !w.zero_balance_token_account_policy.writes_live_amount amount then
    [.count .zero_balance_token_accounts_omitted_from_full_baseline]
  else
    w.remember_affected_pair mint owner ++
      [.lane w.group (.write (.token_account
        { pubkey := pubkey_string account.stored_meta.pubkey
          mint, owner, amount, delegate, delegated_amount, state, close_authority
          is_deleted := 0
          updated_slot := account_slot }))]

def insert_spl_token (account : StoredAccountMeta) (account_slot : Slot) : List ImportOp :=
  if account.stored_meta.data_len = account_len then
    match dec.unpack_account account.data with
    | some token_account =>
        let mint := pubkey_string token_account.mint
        let owner := pubkey_string token_account.owner
        (if mint ∈ w.hot_mints then
          w.write_hot_token_account_row account account_slot mint owner token_account.amount
            (token_account.delegate.map pubkey_string) token_account.delegated_amount
            token_account.state.as_u8 (token_account.close_authority.map pubkey_string)
        else []) ++ [.count .spl_token_accounts_parsed, .count .tokens]
    | none => .count .spl_token_unpack_failed :: w.record_close_candidate account account_slot
  else if account.stored_meta.data_len = mint_len then
    match dec.unpack_mint account.data with
    | some token_mint =>
        let mint := pubkey_string account.stored_meta.pubkey
        (if mint ∈ w.hot_mints then
          [.lane w.group (.write (.token_mint
            { mint
              mint_authority := token_mint.mint_authority.map pubkey_string
              supply := token_mint.supply
              decimals := token_mint.decimals
              is_initialized := token_mint.is_initialized
              freeze_authority := token_mint.freeze_authority.map pubkey_string
              updated_slot := w.snapshot_slot }))]
        else []) ++ [.count .spl_token_accounts_parsed, .count .tokens]
    | none => [.count .spl_token_unpack_failed]
  else [.count .spl_token_unexpected_size]

/-- The operations and whether the value was recorded. -/
def record_token_2022_metadata (metadata : Token2022Metadata) (expected_mint : Option Pubkey)
    (account_slot : Slot) (source : MetadataSource) (source_account : String) :
    List ImportOp × Bool :=
  if expected_mint.any fun expected => metadata.mint ≠ expected then ([], false)
  else
    let mint := pubkey_string metadata.mint
    if mint ∉ w.hot_mints then ([], false)
    else
      ([.lane w.group (.record_metadata_fields mint
        { account_slot, source, source_account
          fields := token_2022_metadata_fields metadata })], true)

def insert_token_2022 (account : StoredAccountMeta) (account_slot : Slot) : List ImportOp :=
  let pubkey := pubkey_string account.stored_meta.pubkey
  match dec.unpack_token_2022_base_state account.data with
  | some (.Account token_account) =>
      let mint := pubkey_string token_account.mint
      let owner := pubkey_string token_account.owner
      (if mint ∈ w.hot_mints then
        w.write_hot_token_account_row account account_slot mint owner token_account.amount
          (token_account.delegate.map pubkey_string) token_account.delegated_amount
          token_account.state.as_u8 (token_account.close_authority.map pubkey_string)
      else []) ++ [.count .token_2022_accounts_parsed, .count .tokens]
  | some (.Mint token_mint) =>
      let mint := pubkey
      -- the extensions of a mint are parsed only if it is hot
      (if mint ∈ w.hot_mints then
        .lane w.group (.write (.token_mint
          { mint
            mint_authority := token_mint.mint_authority.map pubkey_string
            supply := token_mint.supply
            decimals := token_mint.decimals
            is_initialized := token_mint.is_initialized
            freeze_authority := token_mint.freeze_authority.map pubkey_string
            updated_slot := w.snapshot_slot })) ::
        match dec.parse_token_2022_mint_extensions account.data with
        | some parsed =>
            .lane w.group (.record_extensions mint { account_slot, json := parsed.json }) ::
            ((match parsed.token_metadata with
              | some metadata =>
                  (w.record_token_2022_metadata metadata (some account.stored_meta.pubkey)
                    account_slot .Token2022Embedded pubkey).1
              | none => []) ++ [.count .metadata])
        | none => []
      else []) ++ [.count .token_2022_accounts_parsed, .count .tokens]
  | none =>
      match dec.parse_token_2022_metadata_value account.data with
      | some metadata =>
          let (ops, recorded) := w.record_token_2022_metadata metadata none account_slot
            .Token2022Standalone pubkey
          ops ++ (if recorded then [.count .metadata] else []) ++
            [.count .token_2022_accounts_parsed]
      | none =>
          .count .token_2022_unpack_failed :: w.record_close_candidate account account_slot

def insert_token_metadata (account : StoredAccountMeta) (account_slot : Slot) :
    List ImportOp :=
  match dec.metaplex_fields account.data with
  | none => []
  | some (mint, fields) =>
      if mint ∉ w.hot_mints then []
      else
        [.lane w.group (.record_metadata_fields mint
          { account_slot
            source := .Metaplex
            source_account := pubkey_string account.stored_meta.pubkey
            fields }), .count .metadata]

/-- The closed-account check stands before the dispatch by owner: a closed token
account has the default owner. -/
def insert_account (account : StoredAccountMeta) (account_slot : Slot) : List ImportOp :=
  let owner := account.account_meta.owner
  [.lane w.group .maybe_force_commit,
    .lane w.group (.write (.account
      { pubkey := pubkey_string account.stored_meta.pubkey
        owner := pubkey_string owner
        lamports := account.account_meta.lamports
        data_len := account.stored_meta.data_len
        executable := account.account_meta.executable
        updated_slot := w.snapshot_slot }))] ++
  (if w.collect_close_tombstones && is_canonical_empty_account account.stored_meta.data_len
      account.account_meta.lamports owner account.account_meta.executable
    then w.record_close_candidate account account_slot else []) ++
  (if owner = spl_token_id then
    .count .spl_token_owner_accounts_seen :: w.insert_spl_token dec account account_slot
  else if owner = token_2022_program_id then
    .count .token_2022_owner_accounts_seen :: w.insert_token_2022 dec account account_slot
  else []) ++
  (if owner = mpl_metadata_id then w.insert_token_metadata dec account account_slot else []) ++
  [.count .accounts]

/-- `on_append_vec_count`; what it returns is the number of accounts. -/
def on_append_vec_count (append_vec : AppendVec) : List ImportOp :=
  append_vec.accounts.flatMap fun account => w.insert_account dec account append_vec.slot

/-- What the loops of `insert_all` do around one delivered storage file. -/
def on_delivered (append_vec : AppendVec) : List ImportOp :=
  .count .append_vecs_total :: w.on_append_vec_count dec append_vec ++
    (if append_vec.accounts.length = 0 then [.count .nonempty_zero_account_append_vecs]
      else []) ++
    [.count .append_vecs]

end Worker

end SnapshotEtl
