/-
`FullFanoutWorker`: one pass over a full archive that feeds the staging group
with all of it and the active group with the storages above its resume slot, and
the proof that this is two separate imports.

The argument follows the functions: each function of the fan-out worker, read on
one lane, is the function of the same name of the `Worker` that lane would have
had. `Full` reads on the staging lane unconditionally, `Incremental` on the
active lane when the storage is above the resume slot.
-/
import SnapshotEtl.Worker

set_option autoImplicit false

namespace SnapshotEtl

structure FullFanoutWorker where
  snapshot_slot : Slot
  active_resume_slot : Slot
  active_hot_mints : Finset String
  staging_hot_mints : Finset String
deriving DecidableEq

namespace FullFanoutWorker

variable (dec : Decoders) (w : FullFanoutWorker)

/-! ## The parser -/

def record_active_close_candidate (account : StoredAccountMeta) (account_slot : Slot) :
    List ImportOp :=
  if is_close_tombstone_candidate account.account_meta.lamports
  then [.lane .Active
    (.remember_close_candidate (pubkey_string account.stored_meta.pubkey) account_slot)]
  else []

def write_token_account_row (account : StoredAccountMeta) (account_slot : Slot)
    (write_active : Bool) (mint owner : String) (amount : ℕ) (delegate : Option String)
    (delegated_amount : ℕ) (state : ℕ) (close_authority : Option String) : List ImportOp :=
  let hot_staging : Bool := mint ∈ w.staging_hot_mints
  let write_active := write_active && mint ∈ w.active_hot_mints
  let omitted := hot_staging &&
    !ZeroBalanceTokenAccountPolicy.ExcludeFromFullBaseline.writes_live_amount amount
  let write_staging := hot_staging && !omitted
  let row : TokenAccountRow :=
    { pubkey := pubkey_string account.stored_meta.pubkey
      mint, owner, amount, delegate, delegated_amount, state, close_authority
      is_deleted := 0
      updated_slot := account_slot }
  (if omitted then [.count .zero_balance_token_accounts_omitted_from_full_baseline] else []) ++
  (if !write_staging && !write_active then []
  else
    (if write_active then [.lane .Active (.remember_affected_pair (mint, owner))] else []) ++
    (if write_staging then [.lane .Backup (.write (.token_account row))] else []) ++
    (if write_active then [.lane .Active (.write (.token_account row))] else []))

def write_token_mint_row (write_active : Bool) (mint : String)
    (mint_authority : Option String) (supply decimals : ℕ) (is_initialized : Bool)
    (freeze_authority : Option String) : List ImportOp :=
  let write_staging : Bool := mint ∈ w.staging_hot_mints
  let write_active := write_active && mint ∈ w.active_hot_mints
  let row : TokenMintRow :=
    { mint, mint_authority, supply, decimals, is_initialized, freeze_authority
      updated_slot := w.snapshot_slot }
  if !write_staging && !write_active then []
  else
    (if write_staging then [.lane .Backup (.write (.token_mint row))] else []) ++
    (if write_active then [.lane .Active (.write (.token_mint row))] else [])

def insert_spl_token (account : StoredAccountMeta) (account_slot : Slot)
    (write_active : Bool) : List ImportOp :=
  if account.stored_meta.data_len = account_len then
    match dec.unpack_account account.data with
    | some token_account =>
        let mint := pubkey_string token_account.mint
        let owner := pubkey_string token_account.owner
        w.write_token_account_row account account_slot write_active mint owner
          token_account.amount (token_account.delegate.map pubkey_string)
          token_account.delegated_amount token_account.state.as_u8
          (token_account.close_authority.map pubkey_string) ++
        [.count .spl_token_accounts_parsed, .count .tokens]
    | none =>
        .count .spl_token_unpack_failed ::
          (if write_active then record_active_close_candidate account account_slot else [])
  else if account.stored_meta.data_len = mint_len then
    match dec.unpack_mint account.data with
    | some token_mint =>
        let mint := pubkey_string account.stored_meta.pubkey
        w.write_token_mint_row write_active mint (token_mint.mint_authority.map pubkey_string)
          token_mint.supply token_mint.decimals token_mint.is_initialized
          (token_mint.freeze_authority.map pubkey_string) ++
        [.count .spl_token_accounts_parsed, .count .tokens]
    | none => [.count .spl_token_unpack_failed]
  else [.count .spl_token_unexpected_size]

/-- The operations and whether the value was recorded on some lane. -/
def record_token_2022_metadata (metadata : Token2022Metadata) (expected_mint : Option Pubkey)
    (account_slot : Slot) (source : MetadataSource) (source_account : String)
    (write_active : Bool) : List ImportOp × Bool :=
  if expected_mint.any fun expected => metadata.mint ≠ expected then ([], false)
  else
    let mint := pubkey_string metadata.mint
    let fields := token_2022_metadata_fields metadata
    let write_staging : Bool := mint ∈ w.staging_hot_mints
    let write_active := write_active && mint ∈ w.active_hot_mints
    if !write_staging && !write_active then ([], false)
    else
      let candidate : VersionedMetadataFields :=
        { account_slot, source, source_account, fields }
      ((if write_staging then [.lane .Backup (.record_metadata_fields mint candidate)]
        else []) ++
        (if write_active then [.lane .Active (.record_metadata_fields mint candidate)]
        else []), true)

def insert_token_2022 (account : StoredAccountMeta) (account_slot : Slot)
    (write_active : Bool) : List ImportOp :=
  let pubkey := pubkey_string account.stored_meta.pubkey
  match dec.unpack_token_2022_base_state account.data with
  | some (.Account token_account) =>
      let mint := pubkey_string token_account.mint
      let owner := pubkey_string token_account.owner
      w.write_token_account_row account account_slot write_active mint owner
        token_account.amount (token_account.delegate.map pubkey_string)
        token_account.delegated_amount token_account.state.as_u8
        (token_account.close_authority.map pubkey_string) ++
      [.count .token_2022_accounts_parsed, .count .tokens]
  | some (.Mint token_mint) =>
      let mint := pubkey
      let write_staging_metadata : Bool := mint ∈ w.staging_hot_mints
      let write_active_metadata := write_active && mint ∈ w.active_hot_mints
      w.write_token_mint_row write_active mint (token_mint.mint_authority.map pubkey_string)
        token_mint.supply token_mint.decimals token_mint.is_initialized
        (token_mint.freeze_authority.map pubkey_string) ++
      -- parsed once for both groups
      (if write_staging_metadata || write_active_metadata then
        match dec.parse_token_2022_mint_extensions account.data with
        | some parsed =>
            let extension_patch : VersionedExtensions := { account_slot, json := parsed.json }
            (if write_staging_metadata then
              [.lane .Backup (.record_extensions mint extension_patch)] else []) ++
            (if write_active_metadata then
              [.lane .Active (.record_extensions mint extension_patch)] else []) ++
            (match parsed.token_metadata with
              | some metadata =>
                  (w.record_token_2022_metadata metadata (some account.stored_meta.pubkey)
                    account_slot .Token2022Embedded pubkey write_active).1
              | none => []) ++ [.count .metadata]
        | none => []
      else []) ++
      [.count .token_2022_accounts_parsed, .count .tokens]
  | none =>
      match dec.parse_token_2022_metadata_value account.data with
      | some metadata =>
          let (ops, recorded) := w.record_token_2022_metadata metadata none account_slot
            .Token2022Standalone pubkey write_active
          ops ++ (if recorded then [.count .metadata] else []) ++
            [.count .token_2022_accounts_parsed]
      | none =>
          .count .token_2022_unpack_failed ::
            (if write_active then record_active_close_candidate account account_slot else [])

def insert_token_metadata (account : StoredAccountMeta) (account_slot : Slot)
    (write_active : Bool) : List ImportOp :=
  match dec.metaplex_fields account.data with
  | none => []
  | some (mint, fields) =>
      let write_staging : Bool := mint ∈ w.staging_hot_mints
      let write_active := write_active && mint ∈ w.active_hot_mints
      if !write_staging && !write_active then []
      else
        let candidate : VersionedMetadataFields :=
          { account_slot
            source := .Metaplex
            source_account := pubkey_string account.stored_meta.pubkey
            fields }
        (if write_staging then [.lane .Backup (.record_metadata_fields mint candidate)]
          else []) ++
        (if write_active then [.lane .Active (.record_metadata_fields mint candidate)]
          else []) ++
        [.count .metadata]

/-- Both lanes check for aged batches on every account, also on those the active
lane does not take. -/
def insert_account (account : StoredAccountMeta) (account_slot : Slot)
    (write_active : Bool) : List ImportOp :=
  let owner := account.account_meta.owner
  let row : AccountRow :=
    { pubkey := pubkey_string account.stored_meta.pubkey
      owner := pubkey_string owner
      lamports := account.account_meta.lamports
      data_len := account.stored_meta.data_len
      executable := account.account_meta.executable
      updated_slot := w.snapshot_slot }
  [.lane .Active .maybe_force_commit, .lane .Backup .maybe_force_commit,
    .lane .Backup (.write (.account row))] ++
  (if write_active then [.lane .Active (.write (.account row))] else []) ++
  (if write_active && is_canonical_empty_account account.stored_meta.data_len
      account.account_meta.lamports owner account.account_meta.executable
    then record_active_close_candidate account account_slot else []) ++
  (if owner = spl_token_id then
    .count .spl_token_owner_accounts_seen ::
      w.insert_spl_token dec account account_slot write_active
  else if owner = token_2022_program_id then
    .count .token_2022_owner_accounts_seen ::
      w.insert_token_2022 dec account account_slot write_active
  else []) ++
  (if owner = mpl_metadata_id then
    w.insert_token_metadata dec account account_slot write_active else []) ++
  [.count .accounts]

def on_append_vec_count (append_vec : AppendVec) : List ImportOp :=
  let account_slot := append_vec.slot
  let write_active : Bool := account_slot > w.active_resume_slot
  .count .append_vecs_total ::
    (append_vec.accounts.flatMap fun account =>
      w.insert_account dec account account_slot write_active) ++
    (if append_vec.len > 0 && append_vec.accounts.length = 0 then
      [.count .nonempty_zero_account_append_vecs] else []) ++
    [.count .append_vecs]

/-! ## The worker of each lane -/

/-- The worker a separate import of the lane would have. -/
def lane_worker : TableGroup → Worker
  | .Active => Worker.new .Active .Incremental w.snapshot_slot w.active_hot_mints
  | .Backup => Worker.new .Backup .Full w.snapshot_slot w.staging_hot_mints

/-- Whether the lane takes a storage: staging always, active by its flag. -/
def takes (write_active : Bool) : TableGroup → Bool
  | .Active => write_active
  | .Backup => true

@[simp] theorem lane_worker_group (group : TableGroup) :
    (w.lane_worker group).group = group := by cases group <;> rfl

/-- Close candidates go to the active lane, where it takes the account. -/
theorem on_lane_record_active_close_candidate (group : TableGroup) (write_active : Bool)
    (account : StoredAccountMeta) (account_slot : Slot) :
    on_lane group
        (if write_active then record_active_close_candidate account account_slot else [])
      = if takes write_active group then
          on_lane group ((w.lane_worker group).record_close_candidate account account_slot)
        else [] := by
  cases group <;> cases write_active <;>
    simp [takes, lane_worker, Worker.new, record_active_close_candidate,
      Worker.record_close_candidate, SnapshotKind.collect_close_tombstones, on_lane_ite]

/-- A row of a token account goes to each lane that takes the account and has the mint hot.
-/
theorem on_lane_write_token_account_row (group : TableGroup) (write_active : Bool)
    (account : StoredAccountMeta) (account_slot : Slot) (mint owner : String) (amount : ℕ)
    (delegate : Option String) (delegated_amount state : ℕ) (close_authority : Option String) :
    on_lane group (w.write_token_account_row account account_slot write_active mint owner amount
        delegate delegated_amount state close_authority)
      = if takes write_active group then
          on_lane group (if mint ∈ (w.lane_worker group).hot_mints then
            (w.lane_worker group).write_hot_token_account_row account account_slot mint owner
              amount delegate delegated_amount state close_authority else [])
        else [] := by
  cases group with
  | Active =>
      by_cases hmint : mint ∈ w.active_hot_mints <;> cases write_active <;>
        simp [takes, lane_worker, Worker.new, write_token_account_row,
          Worker.write_hot_token_account_row, Worker.remember_affected_pair,
          SnapshotKind.zero_balance_token_account_policy,
          ZeroBalanceTokenAccountPolicy.writes_live_amount, on_lane_ite, hmint]
  | Backup =>
      -- the zero-balance policy drops the staging row on both sides
      by_cases hmint : mint ∈ w.staging_hot_mints <;> by_cases hamount : 0 < amount <;>
        simp [takes, lane_worker, Worker.new, write_token_account_row,
          Worker.write_hot_token_account_row, Worker.remember_affected_pair,
          SnapshotKind.zero_balance_token_account_policy,
          ZeroBalanceTokenAccountPolicy.writes_live_amount, on_lane_ite, hmint, hamount]

/-- A row of a mint goes to each lane that takes the account. -/
theorem on_lane_write_token_mint_row (group : TableGroup) (write_active : Bool)
    (mint : String) (mint_authority : Option String) (supply decimals : ℕ)
    (is_initialized : Bool) (freeze_authority : Option String) :
    on_lane group (w.write_token_mint_row write_active mint mint_authority supply decimals
        is_initialized freeze_authority)
      = if takes write_active group then
          on_lane group (if mint ∈ (w.lane_worker group).hot_mints then
            [.lane (w.lane_worker group).group (.write (.token_mint
              { mint, mint_authority, supply, decimals, is_initialized, freeze_authority
                updated_slot := (w.lane_worker group).snapshot_slot }))] else [])
        else [] := by
  by_cases hactive : mint ∈ w.active_hot_mints <;>
    by_cases hstaging : mint ∈ w.staging_hot_mints <;>
      cases group <;> cases write_active <;>
        simp [takes, lane_worker, Worker.new, write_token_mint_row, hactive, hstaging]

/-- So does a metadata patch. -/
theorem on_lane_record_token_2022_metadata (group : TableGroup) (write_active : Bool)
    (metadata : Token2022Metadata) (expected_mint : Option Pubkey) (account_slot : Slot)
    (source : MetadataSource) (source_account : String) :
    on_lane group (w.record_token_2022_metadata metadata expected_mint account_slot source
        source_account write_active).1
      = if takes write_active group then
          on_lane group ((w.lane_worker group).record_token_2022_metadata metadata
            expected_mint account_slot source source_account).1
        else [] := by
  unfold record_token_2022_metadata Worker.record_token_2022_metadata
  by_cases hexp : (expected_mint.any fun expected => metadata.mint ≠ expected) = true
  · rw [if_pos hexp, if_pos hexp]
    simp
  · rw [if_neg hexp, if_neg hexp]
    by_cases hactive : pubkey_string metadata.mint ∈ w.active_hot_mints <;>
      by_cases hstaging : pubkey_string metadata.mint ∈ w.staging_hot_mints <;>
        cases group <;> cases write_active <;>
          simp [takes, lane_worker, Worker.new, hactive, hstaging]

/-- A metadata value that must name a mint the lane does not keep is not kept. -/
theorem record_token_2022_metadata_of_cold (v : Worker) (metadata : Token2022Metadata)
    (expected : Pubkey) (account_slot : Slot) (source : MetadataSource)
    (source_account : String) (h : pubkey_string expected ∉ v.hot_mints) :
    v.record_token_2022_metadata metadata (some expected) account_slot source source_account
      = ([], false) := by
  unfold Worker.record_token_2022_metadata
  by_cases hexp : metadata.mint = expected
  · simp [hexp, h]
  · simp [hexp]

/-! ## The dispatch on one lane -/

/-- A lane that takes the storage and keeps the mint is among those asked for. -/
theorem wants_mint (group : TableGroup) (write_active : Bool) (mint : String)
    (h : (takes write_active group && mint ∈ (w.lane_worker group).hot_mints) = true) :
    (decide (mint ∈ w.staging_hot_mints) ||
      (write_active && decide (mint ∈ w.active_hot_mints))) = true := by
  cases group <;> simp_all [takes, lane_worker, Worker.new]

/-- The extensions of a mint, recorded on the lanes that want them: what the
mint branch does when it parses them. -/
theorem on_lane_mint_extensions (group : TableGroup) (write_active : Bool)
    (parsed : ParsedToken2022MintExtensions) (pubkey : Pubkey) (account_slot : Slot)
    (extension_patch : VersionedExtensions) (mint : String)
    (hmint : mint = pubkey_string pubkey) :
    on_lane group
      (if decide (mint ∈ w.staging_hot_mints) ||
          (write_active && decide (mint ∈ w.active_hot_mints)) then
        (if decide (mint ∈ w.staging_hot_mints) then
          [.lane .Backup (.record_extensions mint extension_patch)] else []) ++
        (if write_active && decide (mint ∈ w.active_hot_mints) then
          [.lane .Active (.record_extensions mint extension_patch)] else []) ++
        (match parsed.token_metadata with
          | some metadata =>
              (w.record_token_2022_metadata metadata (some pubkey) account_slot
                .Token2022Embedded mint write_active).1
          | none => []) ++ [.count .metadata]
      else [])
      = if takes write_active group && mint ∈ (w.lane_worker group).hot_mints then
          .record_extensions mint extension_patch ::
            match parsed.token_metadata with
            | some metadata =>
                on_lane group ((w.lane_worker group).record_token_2022_metadata metadata
                  (some pubkey) account_slot .Token2022Embedded mint).1
            | none => []
        else [] := by
  have hcold : mint ∉ (w.lane_worker group).hot_mints → ∀ metadata,
      (w.lane_worker group).record_token_2022_metadata metadata (some pubkey) account_slot
        .Token2022Embedded mint = ([], false) := fun h metadata =>
    record_token_2022_metadata_of_cold _ _ _ _ _ _ (hmint ▸ h)
  -- the extensions are parsed where one group wants them, and each group takes its own
  have hwants := w.wants_mint group write_active mint
  by_cases hsome : (decide (mint ∈ w.staging_hot_mints) ||
      (write_active && decide (mint ∈ w.active_hot_mints))) = true
  · rw [if_pos hsome]
    simp only [on_lane_append, on_lane_count, on_lane_nil, List.append_nil]
    cases parsed.token_metadata with
    | none =>
        cases group <;> cases write_active <;>
          simp [takes, lane_worker, Worker.new, on_lane_ite]
    | some metadata =>
        simp only [on_lane_record_token_2022_metadata]
        by_cases hhot : mint ∈ (w.lane_worker group).hot_mints
        · cases group <;> cases write_active <;>
            simp_all [takes, lane_worker, Worker.new, on_lane_ite]
        · rw [hcold hhot]
          cases group <;> cases write_active <;>
            simp_all [takes, lane_worker, Worker.new]
  · rw [if_neg hsome, if_neg fun h => hsome (hwants h), on_lane_nil]

/-- The parser's operations on a lane are those of the lane's own worker. -/
theorem on_lane_insert_spl_token (group : TableGroup) (write_active : Bool)
    (account : StoredAccountMeta) (account_slot : Slot) :
    on_lane group (w.insert_spl_token dec account account_slot write_active)
      = if takes write_active group then
          on_lane group ((w.lane_worker group).insert_spl_token dec account account_slot)
        else [] := by
  unfold insert_spl_token Worker.insert_spl_token
  -- the same cases on both sides: an account, a mint, or something else
  by_cases hlen : account.stored_meta.data_len = account_len
  · rw [if_pos hlen, if_pos hlen]
    cases dec.unpack_account account.data with
    | none =>
        simp only [on_lane_count]
        exact on_lane_record_active_close_candidate ..
    | some token_account =>
        simp only [on_lane_append, on_lane_count, on_lane_nil, List.append_nil]
        exact on_lane_write_token_account_row ..
  · rw [if_neg hlen, if_neg hlen]
    by_cases hmint : account.stored_meta.data_len = mint_len
    · rw [if_pos hmint, if_pos hmint]
      cases dec.unpack_mint account.data with
      | none => simp
      | some token_mint =>
          simp only [on_lane_append, on_lane_count, on_lane_nil, List.append_nil]
          exact on_lane_write_token_mint_row ..
    · rw [if_neg hmint, if_neg hmint]
      simp

/-- The same for token metadata. -/
theorem on_lane_insert_token_metadata (group : TableGroup) (write_active : Bool)
    (account : StoredAccountMeta) (account_slot : Slot) :
    on_lane group (w.insert_token_metadata dec account account_slot write_active)
      = if takes write_active group then
          on_lane group ((w.lane_worker group).insert_token_metadata dec account account_slot)
        else [] := by
  unfold insert_token_metadata Worker.insert_token_metadata
  cases dec.metaplex_fields account.data with
  | none => simp
  | some value =>
      obtain ⟨mint, fields⟩ := value
      by_cases hactive : mint ∈ w.active_hot_mints <;>
        by_cases hstaging : mint ∈ w.staging_hot_mints <;>
          cases group <;> cases write_active <;>
            simp [takes, lane_worker, Worker.new, hactive, hstaging]

/-- The mint branch of `insert_token_2022`: the extensions are parsed when some
lane wants them and recorded on the lanes that do. -/
theorem on_lane_insert_token_2022 (group : TableGroup) (write_active : Bool)
    (account : StoredAccountMeta) (account_slot : Slot) :
    on_lane group (w.insert_token_2022 dec account account_slot write_active)
      = if takes write_active group then
          on_lane group ((w.lane_worker group).insert_token_2022 dec account account_slot)
        else [] := by
  unfold insert_token_2022 Worker.insert_token_2022
  cases dec.unpack_token_2022_base_state account.data with
  | none =>
      cases dec.parse_token_2022_metadata_value account.data with
      | none =>
          simp only [on_lane_count]
          exact on_lane_record_active_close_candidate ..
      | some metadata =>
          simp only [on_lane_append, on_lane_ite, on_lane_count, on_lane_nil, ite_self,
            List.append_nil]
          exact on_lane_record_token_2022_metadata ..
  | some state =>
      cases state with
      | Account token_account =>
          simp only [on_lane_append, on_lane_count, on_lane_nil, List.append_nil]
          exact on_lane_write_token_account_row ..
      | Mint token_mint =>
          simp only [on_lane_append, on_lane_count, on_lane_nil, List.append_nil,
            on_lane_write_token_mint_row]
          -- only a mint has extensions, and only a hot one is asked for them
          cases dec.parse_token_2022_mint_extensions account.data with
          | none => cases takes write_active group <;> simp [on_lane_ite]
          | some parsed =>
              dsimp only
              rw [on_lane_mint_extensions w group write_active parsed
                account.stored_meta.pubkey account_slot _ _ rfl]
              cases takes write_active group with
              | false => simp
              | true =>
                  by_cases hhot : pubkey_string account.stored_meta.pubkey
                      ∈ (w.lane_worker group).hot_mints
                  · cases parsed.token_metadata <;> simp [hhot]
                  · simp [hhot]

/-- **One account on one lane**: what the lane's own worker does with it, or
only the flush check. -/
theorem on_lane_insert_account (group : TableGroup) (write_active : Bool)
    (account : StoredAccountMeta) (account_slot : Slot) :
    on_lane group (w.insert_account dec account account_slot write_active)
      = if takes write_active group then
          on_lane group ((w.lane_worker group).insert_account dec account account_slot)
        else [.maybe_force_commit] := by
  have hgroup := w.lane_worker_group group
  have hspl := w.on_lane_insert_spl_token dec group write_active account account_slot
  have h2022 := w.on_lane_insert_token_2022 dec group write_active account account_slot
  have hmeta := w.on_lane_insert_token_metadata dec group write_active account account_slot
  unfold insert_account Worker.insert_account
  cases htakes : takes write_active group with
  -- only active leaves accounts out, and then it has just its check
  | false =>
      obtain ⟨rfl, rfl⟩ : group = .Active ∧ write_active = false := by
        cases group <;> simp_all [takes]
      simp [on_lane_ite, hspl, h2022, hmeta, htakes]
  | true =>
      simp only [htakes, if_true] at hspl h2022 hmeta
      cases group with
      | Active =>
          obtain rfl : write_active = true := htakes
          have hclose := w.on_lane_record_active_close_candidate .Active true account
            account_slot
          simp only [takes, if_true] at hclose
          simp [on_lane_ite, hspl, h2022, hmeta, hclose,
            lane_worker, Worker.new, SnapshotKind.collect_close_tombstones]
      | Backup =>
          simp [on_lane_ite, hspl, h2022, hmeta, record_active_close_candidate,
            lane_worker, Worker.new, SnapshotKind.collect_close_tombstones]

/-! ## The whole stream -/

/-- The lane after one storage: flush checks aside, what its own worker leaves,
or nothing. -/
theorem foldl_on_append_vec_count (group : TableGroup) (append_vec : AppendVec)
    (s : LaneState) :
    (on_lane group (w.on_append_vec_count dec append_vec)).foldl LaneState.step s
      = if takes (append_vec.slot > w.active_resume_slot) group then
          (on_lane group ((w.lane_worker group).on_append_vec_count dec append_vec)).foldl
            LaneState.step s
        else s := by
  unfold on_append_vec_count Worker.on_append_vec_count
  simp only [on_lane_append, on_lane_count, on_lane_nil, on_lane_ite, on_lane_flatMap,
    on_lane_insert_account, ite_self, List.append_nil]
  cases takes (decide (append_vec.slot > w.active_resume_slot)) group with
  | true => rfl
  | false =>
      -- on a lane that skips the storage every account is one flush check
      induction append_vec.accounts with
      | nil => rfl
      | cons account accounts ih => simpa [LaneState.step] using ih

/-- A lane of the fan-out is the lane of its own worker over the AppendVecs it takes. -/
theorem lane_state_fanout (group : TableGroup) (stream : List AppendVec) :
    lane_state group (stream.flatMap (w.on_append_vec_count dec))
      = lane_state group ((stream.filter fun av =>
          takes (av.slot > w.active_resume_slot) group).flatMap
            ((w.lane_worker group).on_append_vec_count dec)) := by
  unfold lane_state
  generalize LaneState.empty = s
  induction stream generalizing s with
  | nil => rfl
  | cons av stream ih =>
      rw [List.flatMap_cons, on_lane_append, List.foldl_append, foldl_on_append_vec_count, ih]
      by_cases htakes : takes (decide (av.slot > w.active_resume_slot)) group = true
      · rw [if_pos htakes, List.filter_cons, if_pos htakes, List.flatMap_cons, on_lane_append,
          List.foldl_append]
      · rw [if_neg htakes, List.filter_cons, if_neg htakes]

/-- **The fan-out is two separate imports.** The staging lane ends as a full
one of the whole stream leaves it, the active lane as an incremental one of the
storages above the resume slot does: the same rows in the same order for
every table, the same patches, affected pairs and close candidates. -/
theorem fanout_eq_separate_imports (stream : List AppendVec) :
    lane_state .Backup (stream.flatMap (w.on_append_vec_count dec))
        = lane_state .Backup (stream.flatMap ((Worker.new .Backup .Full w.snapshot_slot
            w.staging_hot_mints).on_append_vec_count dec)) ∧
      lane_state .Active (stream.flatMap (w.on_append_vec_count dec))
        = lane_state .Active ((stream.filter fun av => av.slot > w.active_resume_slot).flatMap
            ((Worker.new .Active .Incremental w.snapshot_slot
              w.active_hot_mints).on_append_vec_count dec)) := by
  refine ⟨?_, w.lane_state_fanout dec .Active stream⟩
  have hall : (stream.filter fun av => takes (decide (av.slot > w.active_resume_slot)) .Backup)
      = stream := List.filter_eq_self.mpr fun _ _ => rfl
  rw [lane_state_fanout, hall]
  rfl

end FullFanoutWorker

end SnapshotEtl
