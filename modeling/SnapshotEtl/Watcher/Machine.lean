/-
Runs of the watcher: a process that is started, makes its calls, ends or is
killed, and is started again, on a disk and on tables that outlive it.

A step answers the call the process is at, or lets it go on after its last one,
or kills it. A kill may fall inside a call: then the call takes whatever effect
the outcome says and the answer is never read. It is the process that is killed, and
the disk keeps what was done to it. What the programs do between two calls needs no
step of its own.
-/
import SnapshotEtl.Watcher.Turn
import SnapshotEtl.Lib.Lts

set_option autoImplicit false

namespace SnapshotEtl.Watcher

open Lib

/-- The process: not there, at its start, or in a turn of its loop. -/
inductive Main
  | down (error : Option WatcherError)
  | starting (rest : Prog Call Answer (Except WatcherError Locals × Unit))
  | running (rest : Prog Call Answer (Except WatcherError Unit × Locals))

/-- The process in its world, with the thread it may have for a staging full. -/
structure Machine where
  world : World
  main : Main
  staging_full : Option (Prog Call Answer (Except WatcherError Unit × Locals))

namespace Machine

/-- No process has run yet: no journal, both groups' tables empty, and any other
files. -/
def initial (files : List (String × List Char)) : Machine where
  world := {
    directory := ⟨none, files⟩
    unsynced := []
    frozen := []
    tables := fun _ => .first
    records := fun _ _ => .empty
    process := .started false }
  main := .down none
  staging_full := none

/-- The process ends, for this reason. -/
def exit (m : Machine) (error : Option WatcherError) : Machine :=
  ⟨m.world.stopped, .down error, none⟩

end Machine

inductive Label
  | start (args : Args)
  | turn
  | reply (o : Outcome)
  | staging_full (o : Outcome)
  | crash (during : Option Outcome)

/-- The call the process is at. -/
def Machine.asks (m : Machine) : Option Call :=
  match m.main with
  | .starting (.call c _) => some c
  | .running (.call c _) => some c
  | _ => none

/-- The call the thread is at. -/
def Machine.thread_asks (m : Machine) : Option Call :=
  match m.staging_full with
  | some (.call c _) => some c
  | _ => none

/-- The thread a call starts, if it is that of a staging full. -/
def spawned (c : Call) (before : Option (Prog Call Answer (Except WatcherError Unit × Locals))) :
    Option (Prog Call Answer (Except WatcherError Unit × Locals)) :=
  match c with
  | .spawn_staging_full snapshot => some (build_staging_full snapshot
      ⟨none, .bootstrap_waiting_for_full, false, 0, none, none, none, []⟩)
  | _ => before

def reply (m : Machine) (o : Outcome) : Option Machine :=
  match m.main with
  | .starting (.call c k) =>
      (m.world.respond c o).map fun (a, w) => { m with world := w, main := .starting (k a) }
  | .running (.call c k) =>
      (m.world.respond c o).map fun (a, w) =>
        ⟨w, .running (k a), spawned c m.staging_full⟩
  | _ => none

/-- After its last call: on to the loop, to the next turn, or out. -/
def turn (state_path : String) (m : Machine) : Option Machine :=
  match m.main with
  | .starting (.done (.ok s, _)) => some { m with main := .running (loop_body state_path s) }
  | .running (.done (.ok _, s)) => some { m with main := .running (loop_body state_path s) }
  | .starting (.done (.error e, _)) => some (m.exit e)
  | .running (.done (.error e, _)) => some (m.exit e)
  | _ => none

def step (state_path : String) (m : Machine) : Label → Option Machine
  | .start args =>
      match m.main with
      | .down _ =>
          some ⟨m.world.started args.bootstrap, .starting (startup state_path args ()), none⟩
      | _ => none
  | .turn => turn state_path m
  | .reply o => reply m o
  | .staging_full o =>
      match m.staging_full with
      | some (.call c k) => (m.world.respond c o).map fun (a, w) =>
          { m with world := w, staging_full := some (k a) }
      | _ => none
  | .crash none =>
      match m.main with
      | .down _ => none
      | _ => some (m.exit none)
  | .crash (some o) => (reply m o).map fun m' => m'.exit none

/-! ## Every call is allowed -/

/-- What holds of the machine at every step. -/
structure Sound (state_path : String) (m : Machine) : Prop where
  world : Inv m.world
  staging_full : m.staging_full = none
  main : match m.main with
    | .down _ => m.world.process = .started false
    | .starting rest => (contract state_path).Safe
        (Ends (fun s _ w => LoopInv s w) fun _ _ _ => True) rest m.world
    | .running rest => (contract state_path).Safe
        (Ends (fun _ s w => LoopInv s w) fun _ _ _ => True) rest m.world

variable {state_path : String} {m m' : Machine}

/-- The first start is sound. -/
theorem sound_initial (files : List (String × List Char)) :
    Sound state_path (.initial files) where
  world := {
    directories := fun d hd s hs => by
      obtain rfl : d = ⟨none, files⟩ := by simpa [Machine.initial] using hd
      cases hs
    memory := fun s hs => by cases hs
    settled := fun s hs => by cases hs.1 }
  staging_full := rfl
  main := rfl

/-- A stop keeps the invariant of the world. -/
theorem Inv.stopped {w : World} (h : Inv w) : Inv w.stopped where
  directories := h.directories
  memory := fun s hs => by cases hs
  settled := fun s hs => by cases hs.1

/-- So does a start. -/
theorem Inv.started {w : World} (h : Inv w) (bootstrap : Bool) : Inv (w.started bootstrap) where
  directories := fun d hd s hs =>
    have hbefore := h.directories d hd s hs
    ⟨hbefore.1, hbefore.2.imp fun _ _ hp => hp.started bootstrap⟩
  memory := fun s hs => by cases hs
  settled := fun s hs => by cases hs.1

/-- The end of a process keeps the machine sound. -/
theorem Sound.exit (h : Sound state_path m) (error : Option WatcherError) :
    Sound state_path (m.exit error) :=
  ⟨h.world.stopped, rfl, rfl⟩

/-- The call the process is at is allowed. -/
theorem Sound.allowed (h : Sound state_path m) {c : Call} (hc : m.asks = some c) :
    Allowed state_path m.world c := by
  obtain ⟨w, main, thread⟩ := m
  have hmain := h.main
  cases main with
  | down error => cases hc
  | starting rest =>
      cases rest with
      | done r => cases hc
      | call c' k =>
          obtain rfl : c' = c := Option.some.inj hc
          exact hmain.1
  | running rest =>
      cases rest with
      | done r => cases hc
      | call c' k =>
          obtain rfl : c' = c := Option.some.inj hc
          exact hmain.1

/-- What an answer does to the world. -/
theorem reply_world {o : Outcome} (h : reply m o = some m') :
    ∃ c a, m.asks = some c ∧ m.world.respond c o = some (a, m'.world) := by
  obtain ⟨w, main, thread⟩ := m
  cases main with
  | down error => cases h
  | starting rest =>
      cases rest with
      | done r => cases h
      | call c k =>
          obtain ⟨⟨a, w'⟩, hr, rfl⟩ := Option.map_eq_some_iff.mp h
          exact ⟨c, a, rfl, hr⟩
  | running rest =>
      cases rest with
      | done r => cases h
      | call c k =>
          obtain ⟨⟨a, w'⟩, hr, rfl⟩ := Option.map_eq_some_iff.mp h
          exact ⟨c, a, rfl, hr⟩

/-- An answered call keeps the machine sound. -/
theorem Sound.reply (h : Sound state_path m) {o : Outcome} (hr : reply m o = some m') :
    Sound state_path m' := by
  obtain ⟨w, main, thread⟩ := m
  have hw := h.world
  have hmain := h.main
  have hthread := h.staging_full
  cases main with
  | down error => cases hr
  | starting rest =>
      cases rest with
      | done r => cases hr
      | call c k =>
          obtain ⟨⟨a, w'⟩, ha, rfl⟩ := Option.map_eq_some_iff.mp hr
          have hnext := hmain.answer hw ha
          exact ⟨hnext.1, hthread, hnext.2⟩
  | running rest =>
      cases rest with
      | done r => cases hr
      | call c k =>
          obtain ⟨⟨a, w'⟩, ha, rfl⟩ := Option.map_eq_some_iff.mp hr
          have hnext := hmain.answer hw ha
          refine ⟨hnext.1, ?_, hnext.2⟩
          cases c with
          | spawn_staging_full snapshot => exact hmain.1.elim
          | _ => exact hthread

/-- The start of a turn keeps the machine sound. -/
theorem Sound.turn (h : Sound state_path m) (ht : turn state_path m = some m') :
    Sound state_path m' := by
  obtain ⟨w, main, thread⟩ := m
  have hw := h.world
  have hmain := h.main
  have hthread := h.staging_full
  cases main with
  | down error => cases ht
  | starting rest =>
      cases rest with
      | call c k => cases ht
      | done r =>
          obtain ⟨r, u⟩ := r
          cases r with
          | error e =>
              obtain rfl := Option.some.inj ht
              exact h.exit e
          | ok s =>
              obtain rfl := Option.some.inj ht
              exact ⟨hw, hthread, keeps_loop_body hw hmain⟩
  | running rest =>
      cases rest with
      | call c k => cases ht
      | done r =>
          obtain ⟨r, s⟩ := r
          cases r with
          | error e =>
              obtain rfl := Option.some.inj ht
              exact h.exit e
          | ok u =>
              obtain rfl := Option.some.inj ht
              exact ⟨hw, hthread, keeps_loop_body hw hmain⟩

/-- **Every step keeps the machine sound.** -/
theorem Sound.step (h : Sound state_path m) {l : Label} (hs : step state_path m l = some m') :
    Sound state_path m' := by
  cases l with
  | start args =>
      obtain ⟨w, main, thread⟩ := m
      cases main with
      | down error =>
          obtain rfl := Option.some.inj hs
          exact ⟨h.world.started _, rfl,
            wp_startup (h.world.started _) rfl fun hbootstrap => hbootstrap ▸ w.started_as_read⟩
      | starting rest => cases hs
      | running rest => cases hs
  | turn => exact h.turn hs
  | reply o => exact h.reply hs
  | staging_full o =>
      unfold Watcher.step at hs
      rw [h.staging_full] at hs
      cases hs
  | crash during =>
      cases during with
      | none =>
          obtain ⟨w, main, thread⟩ := m
          cases main with
          | down error => cases hs
          | starting rest =>
              obtain rfl := Option.some.inj hs
              exact h.exit none
          | running rest =>
              obtain rfl := Option.some.inj hs
              exact h.exit none
      -- the call is answered first, and the process does not see the answer
      | some o =>
          obtain ⟨m₁, hr, rfl⟩ := Option.map_eq_some_iff.mp hs
          exact (h.reply hr).exit none

/-- Both the process and the thread make allowed calls only. -/
theorem Sound.allowed_any (h : Sound state_path m) {c : Call}
    (hc : m.asks = some c ∨ m.thread_asks = some c) : Allowed state_path m.world c := by
  rcases hc with hc | hc
  · exact h.allowed hc
  · rw [Machine.thread_asks, h.staging_full] at hc
    cases hc

/-! ## Facts about the world -/

/-- What a step does to the world: the process starts or ends, or its call takes
effect, whether it reads the answer or is killed. -/
inductive Moves (m : Machine) : Label → World → Prop
  | start {args : Args} : Moves m (.start args) (m.world.started args.bootstrap)
  | turn : Moves m .turn m.world
  | exit : Moves m .turn m.world.stopped
  | reply {c : Call} {o : Outcome} {a : Answer c} {w : World} (hc : m.asks = some c)
      (hr : m.world.respond c o = some (a, w)) : Moves m (.reply o) w
  | killed {c : Call} {o : Outcome} {a : Answer c} {w : World} (hc : m.asks = some c)
      (hr : m.world.respond c o = some (a, w)) : Moves m (.crash (some o)) w.stopped
  | crash : Moves m (.crash none) m.world.stopped

/-- A step of a sound machine has one of the listed effects on the world. -/
theorem Sound.moves (h : Sound state_path m) {l : Label}
    (hstep : Watcher.step state_path m l = some m') : Moves m l m'.world := by
  cases l with
  | start args =>
      obtain ⟨w, main, thread⟩ := m
      cases main with
      | down error =>
          obtain rfl := Option.some.inj hstep
          exact .start
      | starting rest => cases hstep
      | running rest => cases hstep
  | turn =>
      obtain ⟨w, main, thread⟩ := m
      cases main with
      | down error => cases hstep
      | starting rest =>
          cases rest with
          | call c k => cases hstep
          | done r =>
              obtain ⟨r, u⟩ := r
              cases r with
              | error e =>
                  obtain rfl := Option.some.inj hstep
                  exact .exit
              | ok s =>
                  obtain rfl := Option.some.inj hstep
                  exact .turn
      | running rest =>
          cases rest with
          | call c k => cases hstep
          | done r =>
              obtain ⟨r, s⟩ := r
              cases r with
              | error e =>
                  obtain rfl := Option.some.inj hstep
                  exact .exit
              | ok u =>
                  obtain rfl := Option.some.inj hstep
                  exact .turn
  | reply o =>
      obtain ⟨c, a, hc, hr⟩ := reply_world hstep
      exact .reply hc hr
  | staging_full o =>
      -- no thread builds staging alone in a sound machine
      unfold Watcher.step at hstep
      rw [h.staging_full] at hstep
      cases hstep
  | crash during =>
      cases during with
      | none =>
          obtain ⟨w, main, thread⟩ := m
          cases main with
          | down error => cases hstep
          | starting rest =>
              obtain rfl := Option.some.inj hstep
              exact .crash
          | running rest =>
              obtain rfl := Option.some.inj hstep
              exact .crash
      | some o =>
          obtain ⟨m₁, hr, rfl⟩ := Option.map_eq_some_iff.mp hstep
          obtain ⟨c, a, hc, hw⟩ := reply_world hr
          exact .killed hc hw

/-- A fact about the world that the start of a process keeps, and its end, and
every answer to an allowed call. -/
structure Kept (state_path : String) (cond : Machine → Label → Prop) (P : World → Prop) :
    Prop where
  start : ∀ {m : Machine} {args : Args}, Sound state_path m → P m.world → cond m (.start args) →
    P (m.world.started args.bootstrap)
  reply : ∀ {m : Machine} {c : Call} {o : Outcome} {a : Answer c} {w : World},
    Sound state_path m → P m.world → m.asks = some c → cond m (.reply o) →
    m.world.respond c o = some (a, w) → P w
  killed : ∀ {m : Machine} {c : Call} {o : Outcome} {a : Answer c} {w : World},
    Sound state_path m → P m.world → m.asks = some c → cond m (.crash (some o)) →
    m.world.respond c o = some (a, w) → P w.stopped
  stopped : ∀ {w : World}, P w → P w.stopped

section kept

variable {cond : Machine → Label → Prop} {P : World → Prop}

/-- One step of a sound machine keeps what every effect keeps. -/
theorem Kept.step (h : Kept state_path cond P) (hs : Sound state_path m) (hP : P m.world)
    {l : Label} (hcond : cond m l) (hstep : step state_path m l = some m') : P m'.world := by
  generalize hw : m'.world = w
  cases hw ▸ hs.moves hstep with
  | start => exact h.start hs hP hcond
  | turn => exact hP
  | exit => exact h.stopped hP
  | reply hc hr => exact h.reply hs hP hc hcond hr
  | killed hc hr => exact h.killed hs hP hc hcond hr
  | crash => exact h.stopped hP

/-- **What is kept holds along every admitted run.** -/
theorem Kept.along (h : Kept state_path cond P) {labels : List Label} (hs : Sound state_path m)
    (hP : P m.world) (halong : Lts.Along (Watcher.step state_path) cond m labels)
    (hrun : Lts.run (Watcher.step state_path) m labels = some m') :
    Sound state_path m' ∧ P m'.world :=
  Lts.invariant_along (P := fun m => Sound state_path m ∧ P m.world)
    (fun _ _ _ hm hcond hstep => ⟨hm.1.step hstep, h.step hm.1 hm.2 hcond hstep⟩) ⟨hs, hP⟩
    halong hrun

end kept

/-- The states of the watcher's runs. -/
def Reachable (state_path : String) (m : Machine) : Prop :=
  ∃ files labels, Lts.run (step state_path) (.initial files) labels = some m

/-- Every run leads to a sound machine. -/
theorem sound_of_run {files : List (String × List Char)} {labels : List Label}
    (h : Lts.run (step state_path) (.initial files) labels = some m) : Sound state_path m :=
  Lts.invariant (fun _ _ _ hs hstep => hs.step hstep) (sound_initial files) h

theorem sound_of_reachable (h : Reachable state_path m) : Sound state_path m :=
  have ⟨_, _, hrun⟩ := h
  sound_of_run hrun

/-! ## Stretches of runs

The answers the process gets on the usual paths, for runs put together of them. -/

def oks (n : ℕ) : List Label := List.replicate n (.reply .ok)

/-- A start that finds no journal. -/
def first_start (max_updated_slot : Slot) (hot_mints : HotMintSet) (path : String)
    (lines : List String) : List Label :=
  [.start ⟨false, DEFAULT_RESUME_SLOT_REWIND⟩, .reply .ok, .reply (.slot max_updated_slot)] ++
    oks 2 ++ [.reply (.hot_mints hot_mints), .reply (.written path lines), .reply .ok, .turn]

def listing (incrementals : List IncrementalSnapshot) (fulls : List FullSnapshot) : List Label :=
  [.reply (.incrementals incrementals), .reply (.fulls fulls)]

/-- A turn that binds a new full. -/
def bind_full (fulls : List FullSnapshot) (hot_mints : HotMintSet) (path : String)
    (lines : List String) : List Label :=
  listing [] fulls ++ [.reply (.hot_mints hot_mints), .reply (.written path lines)] ++ oks 2 ++
    [.turn]

/-- A turn that loads it and starts the wait for the merges. -/
def load_full (fulls : List FullSnapshot) : List Label := listing [] fulls ++ oks 7 ++ [.turn]

/-- A turn in which staging starts on its first incremental, and active takes it
too. -/
def first_incremental (incremental : IncrementalSnapshot) (fulls : List FullSnapshot) :
    List Label := listing [incremental] fulls ++ oks 7 ++ [.turn]

/-- The merges have settled. -/
def settle : List Label := [.reply (.joined (some .ok)), .reply .ok]

end SnapshotEtl.Watcher
