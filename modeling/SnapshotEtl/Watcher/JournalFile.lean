/-
The journal file: how the watcher writes it, and how it reads one back.

A write goes through a temporary file of the same directory, so the journal is at every
moment a whole one. A journal of an older version is migrated on the way in and
written back before anything else happens. The watcher's own model has one step for a
write, with an answer for each point it can stop at, and here that step is what the
file operations come to.

`serde_json` is not part of the repository: how it prints a document, how it parses a
text and how it describes a misfit are parameters, and that it parses what it has
printed is a hypothesis about the states in question.
-/
import SnapshotEtl.Watcher.JournalDocument
import SnapshotEtl.Lib.AtomicFile
import SnapshotEtl.SqlText

set_option autoImplicit false

namespace SnapshotEtl.JournalFile

open Lib AtomicFile Program Watcher

/-! ## The text of a journal -/

structure Serde where
  to_vec_pretty : Json → List Char
  from_str : List Char → Except String Json
  /-- The error of a document that is not of the type. -/
  mismatch : Json → String

def WATCHER_STATE_FILENAME : String := "solana-snapshot-etl-state.json"

/-- What a write consists of: the document, and a newline. -/
def journal_chunks (serde : Serde) (state : WatcherState) : List (List Char) :=
  [serde.to_vec_pretty state.serialize, ['\n']]

def journal_text (serde : Serde) (state : WatcherState) : List Char :=
  (journal_chunks serde state).flatten

/-- A state as printed is parsed again. -/
def Serde.Parses (serde : Serde) (state : WatcherState) : Prop :=
  serde.from_str (journal_text serde state) = .ok state.serialize

/-! ## Reading -/

inductive LoadError
  | read (path err : String)
  | malformed (path err : String)
  | no_version (path : String)
  | parse (version : ℕ) (path err : String)
  | unsupported (version : ℕ) (path : String)
  | persist (err : String)
deriving DecidableEq, Repr

def LoadError.message : LoadError → String
  | read path err => s!"failed to read watcher state {path}: {err}"
  | malformed path err => s!"failed to parse watcher state {path}: {err}"
  | no_version path => s!"watcher state {path} has no numeric version"
  | parse version path err => s!"failed to parse v{version} watcher state {path}: {err}"
  | unsupported version path =>
      s!"unsupported watcher state version {version} in {path}; expected {WATCHER_STATE_VERSION}"
  | persist err => err

/-- `migrate_v2_state`: v2 knows of no cutover and no shared load. -/
def migrate_v2_state (legacy : LegacyWatcherStateV2) : WatcherState where
  version := WATCHER_STATE_VERSION
  active := (Watcher.migrate_v2_state legacy).active
  staging := (Watcher.migrate_v2_state legacy).staging
  cutover := none
  shared_full_load := none

section Read

variable (serde : Serde) (path : String)

def from_value {T : Type} (version : ℕ) (read : Json → Option T) (value : Json) :
    Except LoadError T :=
  match read value with
  | some state => .ok state
  | none => .error (.parse version path (serde.mismatch value))

/-- The state of a document, and whether it has been migrated. -/
def state_of_value (value : Json) : Except LoadError (WatcherState × Bool) :=
  match (value.get "version").bind Json.as_u64 with
  | none => .error (.no_version path)
  | some version =>
      if version = WATCHER_STATE_VERSION then
        (from_value serde path version WatcherState.deserialize value).map fun s => (s, false)
      else if version = 4 then
        (from_value serde path version WatcherState.deserialize value).map fun s =>
          ({ s with version := WATCHER_STATE_VERSION }, true)
      else if version = 3 then
        (from_value serde path version WatcherState.deserialize value).map fun s =>
          ({ s with version := WATCHER_STATE_VERSION, shared_full_load := none }, true)
      else if version = 2 then
        (from_value serde path version LegacyWatcherStateV2.deserialize value).map fun legacy =>
          (migrate_v2_state legacy, true)
      else .error (.unsupported version path)

def state_of_text (contents : List Char) : Except LoadError (WatcherState × Bool) :=
  match serde.from_str contents with
  | .error err => .error (.malformed path err)
  | .ok value => state_of_value serde path value

end Read

/-! ## The two operations -/

/-- The sibling that a write goes through. -/
def temporary_name (file_name : String) (pid nanos : ℕ) : String :=
  "." ++ file_name ++ "." ++ toString pid ++ "." ++ toString nanos ++ ".tmp"

abbrev JournalIo (α : Type) : Type :=
  Program (AtomicFile.Call String Char) (Answer String) Unit LoadError α

def persist_watcher_state (serde : Serde) (state : WatcherState) (pid nanos : ℕ) :
    Files String Char String Unit :=
  replace_file (temporary_name WATCHER_STATE_FILENAME pid nanos) WATCHER_STATE_FILENAME
    (journal_chunks serde state)

/-- `contents` is what `read_to_string` has returned, `none` where there is no file. -/
def load_watcher_state (serde : Serde) (path : String) (pid nanos : ℕ)
    (contents : Except String (Option (List Char))) : JournalIo (Option WatcherState) := do
  match contents with
  | .error err => fail (.read path err)
  | .ok none => pure none
  | .ok (some contents) =>
      match state_of_text serde path contents with
      | .error e => fail e
      | .ok (state, migrated) =>
          if migrated then
            map_error .persist (persist_watcher_state serde state pid nanos)
          pure (some state)

/-! ## What a write leaves reads as what was written -/

section Reading

variable {serde : Serde} {path : String} {state : WatcherState} {migrated : Bool}

/-- A state of this version whose text is parsed again. -/
structure Writable (serde : Serde) (state : WatcherState) : Prop where
  version : state.version = WATCHER_STATE_VERSION
  fits : state.Fits
  parses : serde.Parses state

/-- The version is read back from the document of a state. -/
theorem version_of_serialize (fits : state.Fits) :
    (state.serialize.get "version").bind Json.as_u64 = some state.version := by
  have hlt : state.version < 2 ^ 64 := lt_trans fits.version (by norm_num)
  rw [WatcherState.serialize, Json.get_of_fields]
  exact Json.as_u64_number hlt

/-- The text written for a state loads as that state, with nothing migrated. -/
theorem state_of_journal_text (h : Writable serde state) :
    state_of_text serde path (journal_text serde state) = .ok (state, false) := by
  have hread : from_value serde path WATCHER_STATE_VERSION WatcherState.deserialize
      state.serialize = .ok state := by
    rw [from_value, WatcherState.deserialize_serialize h.fits]
  rw [state_of_text, h.parses]
  change state_of_value serde path state.serialize = _
  rw [state_of_value, version_of_serialize h.fits, h.version]
  change Except.map _ (from_value serde path WATCHER_STATE_VERSION WatcherState.deserialize
    state.serialize) = _
  rw [hread]
  rfl

/-- A document that is accepted has been decoded. -/
theorem from_value_eq_ok {T : Type} {version : ℕ} {read : Json → Option T} {value : Json} {s : T}
    (h : from_value serde path version read value = .ok s) : read value = some s := by
  unfold from_value at h
  split at h
  · cases h
    assumption
  · cases h

theorem map_eq_ok {ε α β : Type} {x : Except ε α} {f : α → β} {b : β} (h : x.map f = .ok b) :
    ∃ a, x = .ok a ∧ f a = b := by
  cases x with
  | error e => cases h
  | ok a => exact ⟨a, rfl, Except.ok.inj h⟩

theorem version_lt : WATCHER_STATE_VERSION < 2 ^ 32 := by decide

/-- A migrated document of version 2 fits the numbers of the state. -/
theorem fits_migrated_v2 {legacy : LegacyWatcherStateV2} {value : Json}
    (h : LegacyWatcherStateV2.deserialize value = some legacy) :
    (migrate_v2_state legacy).Fits := by
  obtain ⟨hactive, hstaging⟩ := fits_legacy h
  refine ⟨version_lt,
    ⟨fun full hmem => absurd hmem (Option.not_mem_none full), fun slot hslot => ?_⟩,
    ?_, fun load hmem => absurd hmem (Option.not_mem_none load)⟩
  · obtain rfl := Option.some.inj hslot
    exact hactive
  · change FitsLane (Watcher.migrate_v2_state legacy).staging
    rw [Watcher.migrate_v2_state]
    cases hlegacy : legacy.staging with
    | none =>
        exact ⟨fun full hmem => absurd hmem (Option.not_mem_none full),
          fun slot hmem => absurd hmem (Option.not_mem_none slot)⟩
    | some staging =>
        obtain ⟨hfull, hready⟩ := hstaging staging hlegacy
        refine ⟨fun full hmem => ?_, hready⟩
        obtain rfl := Option.some.inj hmem
        exact hfull

/-- The version that is looked at first is the one that is read. -/
theorem version_of_deserialize {value : Json} {version : ℕ}
    (hversion : (value.get "version").bind Json.as_u64 = some version)
    (h : WatcherState.deserialize value = some state) : state.version = version := by
  obtain ⟨inner, hinner, hu64⟩ := Option.bind_eq_some_iff.mp hversion
  rw [WatcherState.deserialize, Option.ite_none_right_eq_some] at h
  obtain ⟨version', hversion', h⟩ := Option.bind_eq_some_iff.mp h.2
  obtain ⟨active, -, h⟩ := Option.bind_eq_some_iff.mp h
  obtain ⟨staging, -, h⟩ := Option.bind_eq_some_iff.mp h
  obtain ⟨cutover, -, h⟩ := Option.bind_eq_some_iff.mp h
  obtain ⟨shared_full_load, -, h⟩ := Option.bind_eq_some_iff.mp h
  obtain rfl := Option.some.inj h
  obtain ⟨inner', hinner', hu32⟩ := Option.bind_eq_some_iff.mp hversion'
  cases value with
  | object keys values =>
      obtain rfl := Option.some.inj (hinner.symm.trans hinner')
      cases inner with
      | number n =>
          cases n with
          | pos n =>
              rw [Json.as_u64, Option.ite_none_right_eq_some] at hu64
              rw [Json.as_u32, Option.ite_none_right_eq_some] at hu32
              exact (Option.some.inj hu32.2).symm.trans (Option.some.inj hu64.2)
          | other text => cases hu32
      | _ => cases hu32
  | _ => cases hinner

/-- Whatever version a document has, its state has this one, and fits. -/
theorem state_of_value_spec {value : Json}
    (h : state_of_value serde path value = .ok (state, migrated)) :
    state.version = WATCHER_STATE_VERSION ∧ state.Fits := by
  unfold state_of_value at h
  -- by the version of the document: the present one, or one of the three that are migrated
  split at h
  · cases h
  · rename_i version hversion
    split at h
    · rename_i hcurrent
      obtain ⟨s, hs, heq⟩ := map_eq_ok h
      cases heq
      have hread := from_value_eq_ok hs
      exact ⟨(version_of_deserialize hversion hread).trans hcurrent,
        WatcherState.fits_of_deserialize hread⟩
    · split at h
      · obtain ⟨s, hs, heq⟩ := map_eq_ok h
        cases heq
        have hfits := WatcherState.fits_of_deserialize (from_value_eq_ok hs)
        exact ⟨rfl, version_lt, hfits.active, hfits.staging, hfits.shared_full_load⟩
      · split at h
        · obtain ⟨s, hs, heq⟩ := map_eq_ok h
          cases heq
          have hfits := WatcherState.fits_of_deserialize (from_value_eq_ok hs)
          exact ⟨rfl, version_lt, hfits.active, hfits.staging, nofun⟩
        · split at h
          · obtain ⟨legacy, hs, heq⟩ := map_eq_ok h
            cases heq
            exact ⟨rfl, fits_migrated_v2 (from_value_eq_ok hs)⟩
          · cases h

/-- Whatever loads has the present version and fits. -/
theorem state_of_text_spec {contents : List Char}
    (h : state_of_text serde path contents = .ok (state, migrated)) :
    state.version = WATCHER_STATE_VERSION ∧ state.Fits := by
  unfold state_of_text at h
  split at h
  · cases h
  · exact state_of_value_spec h

end Reading

/-! ## The journal under crashes -/

/-- The temporary file never has the journal's name. -/
theorem temporary_name_ne (file_name : String) (pid nanos : ℕ) :
    file_name ≠ temporary_name file_name pid nanos := by
  intro h
  have hlength := congrArg String.length h
  simp only [temporary_name, String.length_append] at hlength
  have htmp : ".tmp".length = 4 := rfl
  omega

section Crashes

variable {serde : Serde} {path : String} {state : WatcherState} {d d' : Disk String Char}

/-- What a start of the watcher makes of a text. -/
def Reads (serde : Serde) (path : String) (text : List Char) (state : WatcherState) : Prop :=
  (state_of_text serde path text).map Prod.fst = .ok state

/-- The text written for a state reads as that state. -/
theorem reads_journal_text (h : Writable serde state) :
    Reads serde path (journal_text serde state) state := by
  rw [Reads, state_of_journal_text h]
  rfl

/-- **The journal is never torn.** Over any sequence of journal writes, any of which may
fail or be cut short by a stop or a power loss at any call, whatever may then be found
under its name is a whole text that reads as a state: that of the last write to succeed,
or of one begun since. -/
theorem journal_never_torn (path : String) {last : Option (List Char)}
    {events : List (Event String Char String)} {r : Register String Char String}
    (hd : Register.Intact WATCHER_STATE_FILENAME last [] d)
    (hlast : ∀ text ∈ last, ∃ state, Reads serde path text state)
    (hevents : ∀ temporary chunks, .start temporary chunks ∈ events →
      ∃ state, Writable serde state ∧ chunks = journal_chunks serde state)
    (hrun : Lts.run (Register.step WATCHER_STATE_FILENAME) ⟨d, none, last, []⟩ events = some r) :
    ∀ names ∈ r.disk.views,
      names WATCHER_STATE_FILENAME = none ∧ r.last = none ∨
      ∃ text, names WATCHER_STATE_FILENAME = some ⟨text, true⟩ ∧
        (r.last = some text ∨ text ∈ r.pending) ∧ ∃ state, Reads serde path text state := by
  have htexts := Register.run_texts (P := fun text => ∃ state, Reads serde path text state) hlast
    (fun temporary chunks hmem => by
      obtain ⟨state, hstate, rfl⟩ := hevents temporary chunks hmem
      exact ⟨state, reads_journal_text hstate⟩) hrun
  intro names hnames
  rcases Register.run_intact hd hrun names hnames with hentry | ⟨text, hmem, hentry⟩
  · cases hr : r.last with
    | none => exact .inl ⟨by rw [hentry, hr]; rfl, rfl⟩
    | some text =>
        exact .inr ⟨text, by rw [hentry, hr]; rfl, .inl rfl, htexts.last text hr⟩
  · exact .inr ⟨text, hentry, .inr hmem, htexts.pending text hmem⟩

/-- The first journal of a bootstrap. -/
def first_state : WatcherState :=
  ⟨WATCHER_STATE_VERSION, .waiting_for_full, .disabled, none, none⟩

/-- Its text, and the document it is parsed as. -/
def first_text : List Char :=
  ("\x7b\n  \"version\": 5,\n  \"active\": \x7b\n    \"phase\": \"waiting_for_full\",\n    " ++
    "\"full_snapshot\": null,\n    \"max_slot\": null,\n    \"hot_mints_path\": null,\n    " ++
    "\"inflight_incremental\": null\n  \x7d,\n  \"staging\": \x7b\n    " ++
    "\"phase\": \"disabled\",\n    \"full_snapshot\": null,\n    \"max_slot\": null,\n    " ++
    "\"hot_mints_path\": null,\n    \"inflight_incremental\": null\n  \x7d,\n  " ++
    "\"cutover\": null,\n  \"shared_full_load\": null\n\x7d").toList

/-- As far as one state goes: its text, and the parser on that. -/
def serde_of (text : List Char) (state : WatcherState) : Serde where
  to_vec_pretty _ := text
  from_str contents :=
    if contents = text ++ ['\n'] then .ok state.serialize
    else .error "expected value at line 1 column 1"
  mismatch _ := "invalid type"

/-- A parser that knows one text knows it. -/
theorem parses_serde_of (text : List Char) (state : WatcherState) :
    (serde_of text state).Parses state := by
  simp [Serde.Parses, journal_text, journal_chunks, serde_of]

def first_serde : Serde := serde_of first_text first_state

theorem writable_first_state : Writable first_serde first_state where
  version := rfl
  fits := ⟨version_lt, ⟨nofun, nofun⟩, ⟨nofun, nofun⟩, nofun⟩
  parses := parses_serde_of first_text first_state

/-- The first write, whose directory sync is cut off by a power loss that brings the rename
back. -/
def unsynced_first_write : List (Event String Char String) :=
  [.start (temporary_name WATCHER_STATE_FILENAME 7 1) (journal_chunks first_serde first_state),
    .answer .done, .answer .done, .answer .done, .answer .done, .answer .done,
    .power_loss 1 fun _ => []]

theorem journal_never_torn_unsynced : ∃ r, Lts.run (Register.step WATCHER_STATE_FILENAME)
      ⟨⟨fun _ => none, []⟩, none, none, []⟩ unsynced_first_write = some r ∧
    ∀ names ∈ r.disk.views,
      names WATCHER_STATE_FILENAME = none ∧ r.last = none ∨
      ∃ text, names WATCHER_STATE_FILENAME = some ⟨text, true⟩ ∧
        (r.last = some text ∨ text ∈ r.pending) ∧
        ∃ state, Reads first_serde "/state/solana-snapshot-etl-state.json" text state := by
  have hrun : (Lts.run (Register.step WATCHER_STATE_FILENAME)
      ⟨⟨fun _ => none, []⟩, none, none, []⟩ unsynced_first_write).isSome = true := by
    decide +kernel
  obtain ⟨r, hr⟩ := Option.isSome_iff_exists.mp hrun
  refine ⟨r, hr, journal_never_torn _ ?_ (fun _ hlast => by cases hlast) ?_ hr⟩
  · intro names hnames
    exact .inl (by rw [List.mem_singleton.mp hnames]; rfl)
  · intro temporary chunks hmem
    have hstart : temporary = temporary_name WATCHER_STATE_FILENAME 7 1 ∧
        chunks = journal_chunks first_serde first_state := by
      simpa [unsynced_first_write] using hmem
    exact ⟨first_state, writable_first_state, hstart.2⟩

/-! ## Loading a journal -/

/-- Whatever may be found reads as the state. -/
def AllRead (serde : Serde) (path : String) (state : WatcherState) (d : Disk String Char) : Prop :=
  ∀ names ∈ d.views, ∃ text, names WATCHER_STATE_FILENAME = some ⟨text, true⟩ ∧
    Reads serde path text state

/-- A file in the middle of its replacement reads as the old state or as the new one. -/
theorem AllRead.midway (h : AllRead serde path state d) (hstate : Writable serde state)
    (hd : Midway WATCHER_STATE_FILENAME (journal_text serde state) d d') :
    AllRead serde path state d' := by
  intro names hnames
  rcases hd.views names hnames with hnew | ⟨names', hnames', heq⟩
  · exact ⟨_, hnew, reads_journal_text hstate⟩
  · rw [heq]
    exact h names' hnames'

/-- The load returns the state that the text gives, and where it migrates, the file is
replaced on the way. -/
theorem wp_load_watcher_state {contents : List Char} {migrated : Bool} (pid nanos : ℕ)
    (hread : state_of_text serde path contents = .ok (state, migrated)) :
    wp (replacing String WATCHER_STATE_FILENAME (journal_text serde state) d)
      (load_watcher_state serde path pid nanos (.ok (some contents)))
      (fun loaded _ _ => loaded = some state) (fun e _ _ => ∃ err, e = .persist err) () d := by
  unfold load_watcher_state
  simp only [hread]
  cases migrated with
  | false => exact rfl
  | true =>
      rw [if_pos rfl, wp_bind, wp_map_error]
      refine wp.mono (.inl (.refl _ d)) (wp_replace_file (temporary_name_ne _ pid nanos)
        (journal_chunks serde state)) (fun _ _ _ _ _ => rfl) fun err _ _ _ _ => ⟨err, rfl⟩

/-- **A load can be cut short and repeated.** Where whatever may be found reads as one
state, of whatever version, it still does at every moment of a load, a migrating one
included, and the load gives that state or the error of its write. -/
theorem load_is_resumable (hd : AllRead serde path state d) (hparses : serde.Parses state)
    (pid nanos : ℕ) {outcomes : List (Outcome String)}
    {rest : Prog (AtomicFile.Call String Char) (Answer String)
      (Except LoadError (Option WatcherState) × Unit)}
    (hrun : Lts.run (Prog.step Disk.respond)
      (load_watcher_state serde path pid nanos
        (.ok ((d.now WATCHER_STATE_FILENAME).map File.text)) (), d) outcomes = some (rest, d')) :
    AllRead serde path state d' ∧ ∀ loaded, rest.result = some (loaded, ()) →
      loaded = .ok (some state) ∨ ∃ err, loaded = .error (.persist err) := by
  obtain ⟨contents, hnow, hreads⟩ := hd d.now List.mem_cons_self
  obtain ⟨⟨state', migrated⟩, hread, rfl⟩ := map_eq_ok hreads
  obtain ⟨hversion, hfits⟩ := state_of_text_spec hread
  rw [hnow] at hrun
  have hstart : Midway WATCHER_STATE_FILENAME (journal_text serde state') d d := .inl (.refl _ d)
  obtain ⟨hd', hsafe⟩ := Contract.Safe.run hstart (wp_load_watcher_state pid nanos hread) hrun
  refine ⟨hd.midway ⟨hversion, hfits, hparses⟩ hd', fun loaded hresult => ?_⟩
  have hend := hsafe.result hresult
  cases loaded with
  | ok a => exact .inl (congrArg Except.ok hend)
  | error e =>
      obtain ⟨err, rfl⟩ := hend
      exact .inr ⟨err, rfl⟩

end Crashes

/-- The journal of a bootstrap that version 4 has left. -/
def v4_text : List Char :=
  ("\x7b\"version\": 4, \"active\": \x7b\"phase\": \"waiting_for_full\"\x7d, " ++
    "\"staging\": \x7b\x7d\x7d").toList

def v4_document : Json :=
  .of_fields [("version", .number (.pos 4)),
    ("active", .of_fields [("phase", .string "waiting_for_full")]), ("staging", .of_fields [])]

/-- It parses one more text. -/
def Serde.also (serde : Serde) (text : List Char) (doc : Json) : Serde :=
  { serde with
    from_str contents := if contents = text then .ok doc else serde.from_str contents }

/-- A further text that the parser knows leaves the others as they were. -/
theorem parses_also {serde : Serde} {state : WatcherState} {text : List Char} {doc : Json}
    (h : serde.Parses state) (hne : journal_text serde state ≠ text) :
    (serde.also text doc).Parses state :=
  (if_neg hne).trans h

def v4_serde : Serde := first_serde.also v4_text v4_document

def v4_disk : Disk String Char :=
  ⟨fun name => if name = WATCHER_STATE_FILENAME then some ⟨v4_text, true⟩ else none, []⟩

/-- A load whose write runs out of space. -/
def failed_migration : List (Outcome String) :=
  [.done, .short 10 "No space left on device", .done]

theorem state_of_v4_text : state_of_text v4_serde "/state/solana-snapshot-etl-state.json" v4_text =
    .ok (first_state, true) := by
  have hparsed : v4_serde.from_str v4_text = .ok v4_document := by simp [v4_serde, Serde.also]
  rw [state_of_text, hparsed]
  rfl

theorem load_is_resumable_v4 : ∃ rest d', Lts.run (Prog.step Disk.respond)
      (load_watcher_state v4_serde "/state/solana-snapshot-etl-state.json" 7 1
        (.ok ((v4_disk.now WATCHER_STATE_FILENAME).map File.text)) (), v4_disk)
        failed_migration = some (rest, d') ∧
    AllRead v4_serde "/state/solana-snapshot-etl-state.json" first_state d' ∧
    ∀ loaded, rest.result = some (loaded, ()) →
      loaded = .ok (some first_state) ∨ ∃ err, loaded = .error (.persist err) := by
  have hrun : (Lts.run (Prog.step Disk.respond)
      (load_watcher_state v4_serde "/state/solana-snapshot-etl-state.json" 7 1
        (.ok ((v4_disk.now WATCHER_STATE_FILENAME).map File.text)) (), v4_disk)
        failed_migration).isSome = true := by
    have hnow : (v4_disk.now WATCHER_STATE_FILENAME).map File.text = some v4_text := by
      simp [v4_disk]
    rw [hnow, load_watcher_state]
    simp only [state_of_v4_text, if_true]
    decide +kernel
  obtain ⟨⟨rest, d'⟩, hr⟩ := Option.isSome_iff_exists.mp hrun
  -- the journal ends in a line break
  have hother : journal_text first_serde first_state ≠ v4_text := by
    intro heq
    have hlast : v4_text.getLast? = some '\x7d' := by decide +kernel
    rw [← heq] at hlast
    simp [journal_text, journal_chunks] at hlast
  refine ⟨rest, d', hr, load_is_resumable ?_ ?_ 7 1 hr⟩
  · intro names hnames
    refine ⟨v4_text, by rw [List.mem_singleton.mp hnames]; simp [v4_disk], ?_⟩
    rw [Reads, state_of_v4_text]
    rfl
  · exact parses_also (parses_serde_of first_text first_state) hother

/-! ## The write the watcher's model has -/

section Refinement

-- the UUIDs of the tables of the two generations
variable (uuid : GroupTable → Generation → String)

/-- The tables under a group's names. -/
def identity_document (group : TableGroup) (tables : SnapshotEtl.TableGroupIdentity) :
    TableGroupIdentity where
  tables := (GROUP_MERGE_TABLES.map fun base => group.table (GroupTable.base base)).toFinset
  uuid table :=
    ((GROUP_MERGE_TABLES.find? fun base => group.table (GroupTable.base base) = table.1).map
      fun base => uuid base (tables base)).getD ""

/-- The state of the watcher's model as the file has it. -/
def document (s : SnapshotEtl.WatcherState) : WatcherState where
  version := WATCHER_STATE_VERSION
  active := s.active
  staging := s.staging
  cutover := s.cutover.map fun checkpoint =>
    ⟨identity_document uuid .Active checkpoint.active_tables,
      identity_document uuid .Backup checkpoint.staging_tables⟩
  shared_full_load := s.shared_full_load

variable (serde : Serde)

/-- The file of a directory with this journal. -/
def journal_file (journal : Option SnapshotEtl.WatcherState) : Option (File Char) :=
  journal.map fun s => ⟨journal_text serde (document uuid s), true⟩

/-- The disk has the journal of the world, and what a power loss may bring back is one of
those the world says it may. -/
structure Reflects (d : Disk String Char) (w : World) : Prop where
  now : d.now WATCHER_STATE_FILENAME = journal_file uuid serde w.directory.journal
  views : ∀ names ∈ d.views, ∃ directory ∈ w.directory :: w.unsynced,
    names WATCHER_STATE_FILENAME = journal_file uuid serde directory.journal

variable {uuid serde} {d d' : Disk String Char} {w : World} {s : SnapshotEtl.WatcherState}

/-- A write that has not reached the file leaves the one-step model where it was. -/
theorem Reflects.untouched (h : Reflects uuid serde d w)
    (hd : Untouched WATCHER_STATE_FILENAME d d') : Reflects uuid serde d' (w.unwritten s) where
  now := hd.now.trans h.now
  views := by
    intro names hnames
    obtain ⟨names', hnames', heq⟩ := hd.views names hnames
    rw [heq]
    exact h.views names' hnames'

/-- A write that has replaced the file is the renamed step of the model. -/
theorem Reflects.replaced (h : Reflects uuid serde d w)
    (hd : Replaced WATCHER_STATE_FILENAME (journal_text serde (document uuid s)) d d') :
    Reflects uuid serde d' (w.renamed s) where
  now := hd.now
  views := by
    intro names hnames
    rcases hd.views names hnames with hnew | ⟨names', hnames', heq⟩
    · exact ⟨(w.renamed s).directory, List.mem_cons_self, hnew⟩
    · obtain ⟨directory, hmem, hentry⟩ := h.views names' hnames'
      exact ⟨directory, List.mem_cons_of_mem _ hmem, heq.trans hentry⟩

/-- A settled file is the persisted step of the model. -/
theorem reflects_settled
    (hd : AtomicFile.Settled WATCHER_STATE_FILENAME (journal_text serde (document uuid s)) d') :
    Reflects uuid serde d' (w.persisted s) where
  now := hd.now
  views := by
    intro names hnames
    rw [Disk.views, hd.earlier, List.mem_singleton] at hnames
    exact ⟨(w.persisted s).directory, List.mem_cons_self, hnames ▸ hd.now⟩

/-- **The file operations refine the watcher's journal write.** Wherever they stop, the
disk is one of a write that failed before the rename or after it; where they end, the
watcher's model has an answer for that end, and the disk is the one it says. -/
theorem persist_refines (h : Reflects uuid serde d w) (pid nanos : ℕ)
    {outcomes : List (Outcome String)}
    {rest : Prog (AtomicFile.Call String Char) (Answer String) (Except String Unit × Unit)}
    (hrun : Lts.run (Prog.step Disk.respond)
      (persist_watcher_state serde (document uuid s) pid nanos (), d) outcomes
        = some (rest, d')) :
    (Reflects uuid serde d' (w.unwritten s) ∨ Reflects uuid serde d' (w.renamed s)) ∧
      ∀ written, rest.result = some (written, ()) → ∃ outcome w',
        w.persist s outcome = some (written.toOption, w') ∧ Reflects uuid serde d' w' := by
  obtain ⟨hd', hsettled⟩ := replace_file_run (temporary_name_ne _ pid nanos)
    (journal_chunks serde (document uuid s)) hrun
  refine ⟨hd'.imp h.untouched h.replaced, fun written hresult => ?_⟩
  cases written with
  | ok done => exact ⟨.ok, _, rfl, reflects_settled (hsettled hresult)⟩
  | error e =>
      rcases hd' with huntouched | hreplaced
      · exact ⟨.failed, _, rfl, h.untouched huntouched⟩
      · exact ⟨.failed_late, _, rfl, h.replaced hreplaced⟩

end Refinement

/-- A watcher that has no journal yet. -/
def empty_world : World where
  directory := ⟨none, []⟩
  unsynced := []
  frozen := []
  tables _ := .first
  records _ _ := .empty
  process := .started true

def two_uuids (_ : GroupTable) : Generation → String
  | .first => "11111111-1111-4111-8111-111111111111"
  | .second => "22222222-2222-4222-8222-222222222222"

/-- The first write, whose directory sync fails. -/
def renamed_first_write : List (Outcome String) :=
  [.done, .done, .done, .done, .done, .failed "Input/output error", .failed "Not found"]

theorem persist_refines_renamed : ∃ rest d', Lts.run (Prog.step Disk.respond)
      (persist_watcher_state first_serde (document two_uuids .bootstrap_waiting_for_full) 7 1 (),
        ⟨fun _ => none, []⟩) renamed_first_write = some (rest, d') ∧
    (Reflects two_uuids first_serde d' (empty_world.unwritten .bootstrap_waiting_for_full) ∨
      Reflects two_uuids first_serde d' (empty_world.renamed .bootstrap_waiting_for_full)) ∧
    ∀ written, rest.result = some (written, ()) → ∃ outcome w',
      empty_world.persist .bootstrap_waiting_for_full outcome = some (written.toOption, w') ∧
        Reflects two_uuids first_serde d' w' := by
  have hrun : (Lts.run (Prog.step Disk.respond)
      (persist_watcher_state first_serde (document two_uuids .bootstrap_waiting_for_full) 7 1 (),
        ⟨fun _ => none, []⟩) renamed_first_write).isSome = true := by
    decide +kernel
  obtain ⟨⟨rest, d'⟩, hr⟩ := Option.isSome_iff_exists.mp hrun
  have hreflects : Reflects two_uuids first_serde ⟨fun _ => none, []⟩ empty_world := by
    refine ⟨rfl, fun names hnames => ⟨empty_world.directory, List.mem_cons_self, ?_⟩⟩
    rw [List.mem_singleton.mp hnames]
    rfl
  exact ⟨rest, d', hr, persist_refines hreflects 7 1 hr⟩

end SnapshotEtl.JournalFile
