/-
Replacing a file so that a crash never shows half of one: the text goes to a
temporary name, is made to last there, takes the name over, and the directory
is made to last.

A directory is kept with the earlier ones that a power loss may bring back, and a
file with whether its text has been made to last; what has not been may come
back as anything. Every call may fail, before or after its effect, and a write
part of the way. The rules say what is under the name at every moment of such a
replacement, and once it has ended.
-/
import SnapshotEtl.Lib.Prog
import Mathlib.Logic.Function.Basic

set_option autoImplicit false

namespace SnapshotEtl.Lib.AtomicFile

open Program

/-! ## Directories -/

/-- What a file has had written to it, and whether that lasts. -/
structure File (α : Type) where
  text : List α
  synced : Bool
deriving DecidableEq

abbrev Names (N α : Type) := N → Option (File α)

/-- The names now, and those that a power loss may bring back instead. -/
structure Disk (N α : Type) where
  now : Names N α
  earlier : List (Names N α)

section Calls

variable {N α : Type} [DecidableEq N]

namespace Disk

/-- The names that may be found after a power loss. -/
def views (d : Disk N α) : List (Names N α) := d.now :: d.earlier

/-- Other names, the previous ones not being sure to be gone. -/
def change (d : Disk N α) (now : Names N α) : Disk N α := ⟨now, d.now :: d.earlier⟩

/-- The text of a file, with no change to the names. -/
def put (d : Disk N α) (name : N) (file : File α) : Disk N α :=
  { d with now := Function.update d.now name (some file) }

end Disk

inductive Call (N α : Type)
  | create_new (name : N)
  | write_all (name : N) (chunk : List α)
  | sync_all (name : N)
  | rename (source target : N)
  | sync_directory
  | remove_file (name : N)

abbrev Answer (E : Type) {N α : Type} (_ : Call N α) : Type := Except E Unit

/-- A call is carried out, fails before it has an effect, or after; a write that
fails may have written the first symbols. -/
inductive Outcome (E : Type)
  | done
  | failed (e : E)
  | failed_late (e : E)
  | short (written : ℕ) (e : E)

namespace Disk

/-- What a call does where it is carried out. -/
def effect (d : Disk N α) : Call N α → Option (Disk N α)
  | .create_new name =>
      if d.now name = none then some (d.change (Function.update d.now name (some ⟨[], false⟩)))
      else none
  | .write_all name chunk => (d.now name).map fun file => d.put name ⟨file.text ++ chunk, false⟩
  | .sync_all name => (d.now name).map fun file => d.put name ⟨file.text, true⟩
  | .rename source target => (d.now source).map fun file =>
      d.change (Function.update (Function.update d.now target (some file)) source none)
  | .sync_directory => some { d with earlier := [] }
  | .remove_file name => (d.now name).map fun _ => d.change (Function.update d.now name none)

/-- What a write that fails leaves. -/
def short (d : Disk N α) (written : ℕ) : Call N α → Option (Disk N α)
  | .write_all name chunk =>
      (d.now name).map fun file => d.put name ⟨file.text ++ chunk.take written, false⟩
  | _ => none

def respond {E : Type} (d : Disk N α) (c : Call N α) :
    Outcome E → Option (Answer E c × Disk N α)
  | .done => (d.effect c).map fun d' => (.ok (), d')
  | .failed e => some (.error e, d)
  | .failed_late e => (d.effect c).map fun d' => (.error e, d')
  | .short written e => (d.short written c).map fun d' => (.error e, d')

end Disk

/-! ## The replacement -/

abbrev Files (N α E T : Type) : Type := Program (Call N α) (Answer E) Unit E T

variable {E : Type}

def execute (c : Call N α) : Files N α E Unit := do
  match ← ask c with
  | .ok () => pure ()
  | .error e => fail e

def write_chunks (name : N) : List (List α) → Files N α E Unit
  | [] => pure ()
  | chunk :: chunks => do
      execute (.write_all name chunk)
      write_chunks name chunks

/-- The text as a file of the temporary name, which lasts. -/
def write_temporary (temporary : N) (chunks : List (List α)) : Files N α E Unit := do
  execute (.create_new temporary)
  write_chunks temporary chunks
  execute (.sync_all temporary)

/-- The temporary file takes the name, and the directory lasts. -/
def publish (temporary path : N) : Files N α E Unit := do
  execute (.rename temporary path)
  execute .sync_directory

def replace_file (temporary path : N) (chunks : List (List α)) : Files N α E Unit := do
  let write_result ← attempt do
    write_temporary temporary chunks
    publish temporary path
  match write_result with
  | .ok () => pure ()
  | .error e =>
      let _ ← ask (.remove_file temporary)
      fail e

/-! ## What a call can change -/

/-- The names whose file a call changes. -/
def Call.names : Call N α → List N
  | .create_new name | .write_all name _ | .sync_all name | .remove_file name => [name]
  | .rename source target => [source, target]
  | .sync_directory => []

/-- No view has anything new under the name. -/
structure Untouched (path : N) (before d : Disk N α) : Prop where
  now : d.now path = before.now path
  views : ∀ names ∈ d.views, ∃ names' ∈ before.views, names path = names' path

omit [DecidableEq N] in
/-- Nothing has been touched. -/
theorem Untouched.refl (path : N) (d : Disk N α) : Untouched path d d :=
  ⟨rfl, fun names h => ⟨names, h, rfl⟩⟩

omit [DecidableEq N] in
/-- A path that two stretches leave alone is left alone by both together. -/
theorem Untouched.trans {path : N} {before d d' : Disk N α} (h : Untouched path before d)
    (h' : Untouched path d d') : Untouched path before d' where
  now := h'.now.trans h.now
  views := by
    intro names hnames
    obtain ⟨names₁, hnames₁, heq₁⟩ := h'.views names hnames
    obtain ⟨names₂, hnames₂, heq₂⟩ := h.views names₁ hnames₁
    exact ⟨names₂, hnames₂, heq₁.trans heq₂⟩

omit [DecidableEq N] in
/-- A change of directory in which the path keeps its entry. -/
theorem untouched_change {path : N} {d : Disk N α} {now : Names N α} (h : now path = d.now path) :
    Untouched path d (d.change now) where
  now := h
  views := by
    intro names hnames
    rcases List.mem_cons.mp hnames with rfl | hnames
    · exact ⟨d.now, List.mem_cons_self, h⟩
    · exact ⟨names, hnames, rfl⟩

/-- Writing another name leaves the path alone. -/
theorem untouched_put {path name : N} (hne : path ≠ name) (d : Disk N α) (file : File α) :
    Untouched path d (d.put name file) where
  now := Function.update_of_ne hne _ _
  views := by
    intro names hnames
    rcases List.mem_cons.mp hnames with rfl | hnames
    · exact ⟨d.now, List.mem_cons_self, Function.update_of_ne hne _ _⟩
    · exact ⟨names, List.mem_cons_of_mem _ hnames, rfl⟩

/-- A call leaves every path alone that it does not name. -/
theorem effect_untouched {path : N} {c : Call N α} {d d' : Disk N α} (hc : path ∉ c.names)
    (h : d.effect c = some d') : Untouched path d d' := by
  cases c with
  | create_new name =>
      rw [Disk.effect, Option.ite_none_right_eq_some] at h
      obtain rfl := Option.some.inj h.2
      exact untouched_change (Function.update_of_ne (by simpa [Call.names] using hc) _ _)
  | write_all name chunk =>
      obtain ⟨file, -, rfl⟩ := Option.map_eq_some_iff.mp h
      exact untouched_put (by simpa [Call.names] using hc) d _
  | sync_all name =>
      obtain ⟨file, -, rfl⟩ := Option.map_eq_some_iff.mp h
      exact untouched_put (by simpa [Call.names] using hc) d _
  | rename source target =>
      obtain ⟨file, -, rfl⟩ := Option.map_eq_some_iff.mp h
      obtain ⟨hsource, htarget⟩ : path ≠ source ∧ path ≠ target := by simpa [Call.names] using hc
      refine untouched_change ?_
      rw [Function.update_of_ne hsource, Function.update_of_ne htarget]
  | sync_directory =>
      obtain rfl := Option.some.inj h
      exact ⟨rfl, fun names hnames => ⟨d.now, List.mem_cons_self, by
        rw [List.mem_singleton.mp hnames]⟩⟩
  | remove_file name =>
      obtain ⟨file, -, rfl⟩ := Option.map_eq_some_iff.mp h
      exact untouched_change (Function.update_of_ne (by simpa [Call.names] using hc) _ _)

/-- So does a call that is cut short. -/
theorem short_untouched {path : N} {c : Call N α} {d d' : Disk N α} {written : ℕ}
    (hc : path ∉ c.names) (h : d.short written c = some d') : Untouched path d d' := by
  cases c with
  | write_all name chunk =>
      obtain ⟨file, -, rfl⟩ := Option.map_eq_some_iff.mp h
      exact untouched_put (by simpa [Call.names] using hc) d _
  | _ => cases h

/-- A call has no effect, its effect, or that of a write which has failed. -/
theorem respond_cases {c : Call N α} {d d' : Disk N α} {o : Outcome E} {a : Answer E c}
    (h : d.respond c o = some (a, d')) :
    d' = d ∨ d.effect c = some d' ∨ ∃ written, d.short written c = some d' := by
  cases o with
  | done =>
      obtain ⟨_, hd', heq⟩ := Option.map_eq_some_iff.mp h
      cases heq
      exact .inr (.inl hd')
  | failed e =>
      cases h
      exact .inl rfl
  | failed_late e =>
      obtain ⟨_, hd', heq⟩ := Option.map_eq_some_iff.mp h
      cases heq
      exact .inr (.inl hd')
  | short written e =>
      obtain ⟨_, hd', heq⟩ := Option.map_eq_some_iff.mp h
      cases heq
      exact .inr (.inr ⟨written, hd'⟩)

/-- A call answered with success has had its effect. -/
theorem respond_ok {c : Call N α} {d d' : Disk N α} {o : Outcome E}
    (h : d.respond c o = some (.ok (), d')) : d.effect c = some d' := by
  cases o with
  | done =>
      obtain ⟨_, hd', heq⟩ := Option.map_eq_some_iff.mp h
      cases heq
      exact hd'
  | failed e => cases h
  | failed_late e =>
      obtain ⟨_, -, heq⟩ := Option.map_eq_some_iff.mp h
      cases heq
  | short written e =>
      obtain ⟨_, -, heq⟩ := Option.map_eq_some_iff.mp h
      cases heq

/-- Whatever is answered, a call leaves every path alone that it does not name. -/
theorem respond_untouched {path : N} {c : Call N α} {d d' : Disk N α} {o : Outcome E}
    {a : Answer E c} (hc : path ∉ c.names) (h : d.respond c o = some (a, d')) :
    Untouched path d d' := by
  rcases respond_cases h with rfl | heffect | ⟨written, hshort⟩
  · exact .refl path d'
  · exact effect_untouched hc heffect
  · exact short_untouched hc hshort

/-! ## The name during the replacement -/

/-- The name is taken over by a file that lasts, though views may still have what one had
before. -/
structure Replaced (path : N) (text : List α) (before d : Disk N α) : Prop where
  now : d.now path = some ⟨text, true⟩
  views : ∀ names ∈ d.views, names path = some ⟨text, true⟩ ∨
    ∃ names' ∈ before.views, names path = names' path

/-- The name is taken over for good. -/
structure Settled (path : N) (text : List α) (d : Disk N α) : Prop where
  now : d.now path = some ⟨text, true⟩
  earlier : d.earlier = []

/-- At every moment: the name is as before, or taken over. -/
def Midway (path : N) (text : List α) (before d : Disk N α) : Prop :=
  Untouched path before d ∨ Replaced path text before d

section Rules

variable {temporary path : N} {text : List α} {before d d' : Disk N α}

omit [DecidableEq N] in
/-- A path once replaced stays so while it is left alone. -/
theorem Replaced.trans (h : Replaced path text before d) (h' : Untouched path d d') :
    Replaced path text before d' where
  now := h'.now.trans h.now
  views := by
    intro names hnames
    obtain ⟨names', hnames', heq⟩ := h'.views names hnames
    rw [heq]
    exact h.views names' hnames'

omit [DecidableEq N] in
/-- A path in the middle of its replacement stays there while it is left alone. -/
theorem Midway.trans (h : Midway path text before d) (h' : Untouched path d d') :
    Midway path text before d' :=
  h.imp (fun hd => hd.trans h') fun hd => hd.trans h'

omit [DecidableEq N] in
/-- Every view has the new text, or what one had before. -/
theorem Midway.views (h : Midway path text before d) : ∀ names ∈ d.views,
    names path = some ⟨text, true⟩ ∨ ∃ names' ∈ before.views, names path = names' path := by
  rcases h with huntouched | hreplaced
  · exact fun names hnames => .inr (huntouched.views names hnames)
  · exact hreplaced.views

/-- The name may only be taken over, and only by a file with all of the text that
lasts. -/
def MayExecute (path : N) (text : List α) (d : Disk N α) (c : Call N α) : Prop :=
  path ∉ c.names ∨
    ∃ temporary, c = .rename temporary path ∧ path ≠ temporary ∧
      d.now temporary = some ⟨text, true⟩

/-- The rename of such a file. -/
theorem Midway.rename (hd : Midway path text before d) (hne : path ≠ temporary)
    (hfile : d.now temporary = some ⟨text, true⟩)
    (h : d.effect (.rename temporary path) = some d') : Replaced path text before d' := by
  obtain ⟨file, hmoved, rfl⟩ := Option.map_eq_some_iff.mp h
  obtain rfl := Option.some.inj (hfile.symm.trans hmoved)
  have hnow : Function.update (Function.update d.now path (some (⟨text, true⟩ : File α)))
      temporary none path = some ⟨text, true⟩ := by
    rw [Function.update_of_ne hne, Function.update_self]
  refine ⟨hnow, fun names hnames => ?_⟩
  rcases List.mem_cons.mp hnames with rfl | hnames
  · exact .inl hnow
  · exact hd.views names hnames

/-- An allowed call keeps the path at its old file or at the new one, however it is
answered. -/
theorem Midway.respond {c : Call N α} {o : Outcome E} {a : Answer E c}
    (h : Midway path text before d) (hc : MayExecute path text d c)
    (hr : d.respond c o = some (a, d')) : Midway path text before d' := by
  rcases hc with hother | ⟨temporary, rfl, hne, hfile⟩
  · exact h.trans (respond_untouched hother hr)
  · rcases respond_cases hr with rfl | heffect | ⟨written, hshort⟩
    · exact h
    · exact .inr (h.rename hne hfile heffect)
    · cases hshort

/-- Replacing `path` by `text`, from the directory before. -/
def replacing (E : Type) (path : N) (text : List α) (before : Disk N α) :
    Contract (Call N α) (Answer E) (Outcome E) (Disk N α) where
  respond := Disk.respond
  Inv := Midway path text before
  Allowed := MayExecute path text
  keeps := Midway.respond

/-- The rule for one call: it has its effect, or the replacement stops there. -/
theorem wp_execute {c : Call N α} {Q : Unit → Unit → Disk N α → Prop}
    (hc : MayExecute path text d c)
    (hok : ∀ d', d.effect c = some d' → Midway path text before d' → Q () () d') :
    wp (replacing E path text before) (execute c) Q (fun _ _ _ => True) () d := by
  unfold execute
  rw [wp_bind, wp_ask]
  refine ⟨hc, fun o a d' hr hd' => ?_⟩
  cases a with
  | ok done => exact hok d' (respond_ok hr) hd'
  | error e => trivial

/-- A call on another name, which leaves this one alone. -/
theorem wp_elsewhere {c : Call N α} {Q : Unit → Unit → Disk N α → Prop} (hc : path ∉ c.names)
    (hd : Untouched path before d)
    (hok : ∀ d', d.effect c = some d' → Untouched path before d' → Q () () d') :
    wp (replacing E path text before) (execute c) Q (fun _ _ _ => True) () d :=
  wp_execute (.inl hc) fun d' heffect _ => hok d' heffect (hd.trans (effect_untouched hc heffect))

/-- **The writes** append their chunks to the temporary file. -/
theorem wp_write_chunks (hne : path ≠ temporary) (chunks : List (List α)) {file : File α}
    (hd : Untouched path before d) (hfile : d.now temporary = some file) :
    wp (replacing E path text before) (write_chunks temporary chunks)
      (fun _ _ d' => Untouched path before d' ∧
        ∃ synced, d'.now temporary = some ⟨file.text ++ chunks.flatten, synced⟩)
      (fun _ _ _ => True) () d := by
  induction chunks generalizing d file with
  | nil => exact ⟨hd, file.synced, by rw [hfile, List.flatten_nil, List.append_nil]⟩
  | cons chunk chunks ih =>
      unfold write_chunks
      rw [wp_bind]
      refine wp_elsewhere (by simpa [Call.names] using hne) hd fun d₁ heffect hd₁ => ?_
      have hput : d₁ = d.put temporary ⟨file.text ++ chunk, false⟩ := by
        rw [Disk.effect, hfile] at heffect
        exact (Option.some.inj heffect).symm
      have hfile₁ : d₁.now temporary = some ⟨file.text ++ chunk, false⟩ := by
        rw [hput]
        exact Function.update_self ..
      have hrest := ih hd₁ hfile₁
      rw [List.append_assoc] at hrest
      exact hrest

/-- The temporary file holds the text, synced, and the path is untouched. -/
theorem wp_write_temporary (hne : path ≠ temporary) (chunks : List (List α))
    (hd : Untouched path before d) :
    wp (replacing E path text before) (write_temporary temporary chunks)
      (fun _ _ d' => Untouched path before d' ∧
        d'.now temporary = some ⟨chunks.flatten, true⟩)
      (fun _ _ _ => True) () d := by
  unfold write_temporary
  rw [wp_bind]
  refine wp_elsewhere (by simpa [Call.names] using hne) hd fun d₁ heffect hd₁ => ?_
  have hfile₁ : d₁.now temporary = some ⟨[], false⟩ := by
    rw [Disk.effect, Option.ite_none_right_eq_some] at heffect
    obtain rfl := Option.some.inj heffect.2
    exact Function.update_self ..
  rw [wp_bind]
  refine wp.mono (.inl hd₁) (wp_write_chunks hne chunks hd₁ hfile₁) ?_ fun _ _ _ _ h => h
  rintro - - d₂ - ⟨hd₂, synced, hfile₂⟩
  refine wp_elsewhere (by simpa [Call.names] using hne) hd₂ fun d₃ heffect hd₃ => ⟨hd₃, ?_⟩
  rw [Disk.effect, hfile₂] at heffect
  obtain rfl := Option.some.inj heffect
  exact Function.update_self ..

/-- The rename and the sync of the directory settle the path on the new text. -/
theorem wp_publish (hne : path ≠ temporary) (hd : Untouched path before d)
    (hfile : d.now temporary = some ⟨text, true⟩) :
    wp (replacing E path text before) (publish temporary path)
      (fun _ _ d' => Settled path text d') (fun _ _ _ => True) () d := by
  unfold publish
  rw [wp_bind]
  refine wp_execute (.inr ⟨temporary, rfl, hne, hfile⟩) fun d₁ heffect _ => ?_
  have hd₁ := Midway.rename (.inl hd) hne hfile heffect
  refine wp_execute (.inl (by simp [Call.names])) fun d₂ heffect₂ _ => ?_
  obtain rfl := Option.some.inj heffect₂
  exact ⟨hd₁.now, rfl⟩

/-- **The replacement** ends well only with the name taken over for good. -/
theorem wp_replace_file (hne : path ≠ temporary) (chunks : List (List α)) :
    wp (replacing E path chunks.flatten before) (replace_file temporary path chunks)
      (fun _ _ d' => Settled path chunks.flatten d') (fun _ _ _ => True) () before := by
  have hstart : Midway path chunks.flatten before before := .inl (.refl path before)
  unfold replace_file
  rw [wp_bind, wp_attempt]
  refine wp.mono (Q := fun _ _ d' => Settled path chunks.flatten d') hstart
    (wp.then hstart (wp_write_temporary hne chunks (.refl path before)) ?_
      fun _ _ _ _ h => h) ?_ ?_
  · rintro - - d₁ - ⟨hd₁, hfile⟩
    exact wp_publish hne hd₁ hfile
  · rintro ⟨⟩ ⟨⟩ d₁ - h
    exact h
  · -- after an error the temporary file is removed, and the error returned
    rintro e ⟨⟩ d₁ - -
    refine wp_bind.mpr (wp_ask.mpr ⟨.inl (by simpa [Call.names] using hne), ?_⟩)
    exact fun _ _ _ _ _ => trivial

/-- **Every run of a replacement**, wherever it stops, leaves the name as before or taken
over, and for good where it ends well. -/
theorem replace_file_run (hne : path ≠ temporary) (chunks : List (List α))
    {rest : Prog (Call N α) (Answer E) (Except E Unit × Unit)} {outcomes : List (Outcome E)}
    (hrun : Lts.run (Prog.step Disk.respond) (replace_file temporary path chunks (), before)
      outcomes = some (rest, d)) :
    Midway path chunks.flatten before d ∧
      (rest.result = some (.ok (), ()) → Settled path chunks.flatten d) := by
  have hstart : Midway path chunks.flatten before before := .inl (.refl path before)
  obtain ⟨hd, hsafe⟩ := Contract.Safe.run hstart (wp_replace_file hne chunks) hrun
  exact ⟨hd, fun hresult => hsafe.result hresult⟩

/-- A call with an effect has an execution in which it succeeds. -/
theorem reaches_execute {c : Call N α} (h : d.effect c = some d') :
    Prog.Reaches (Disk.respond (E := E)) (execute c ()) d (.ok (), ()) d' := by
  have hr : d.respond (E := E) c .done = some (.ok (), d') := by
    rw [Disk.respond, h]
    rfl
  exact Prog.reaches_call hr (Prog.reaches_done _ _)

/-- The chunks of a file can all be written. -/
theorem reaches_write_chunks (chunks : List (List α)) {file : File α}
    (hfile : d.now temporary = some file) :
    ∃ d' file', d'.now temporary = some file' ∧
      Prog.Reaches (Disk.respond (E := E)) (write_chunks temporary chunks ()) d (.ok (), ())
        d' := by
  induction chunks generalizing d file with
  | nil => exact ⟨d, file, hfile, Prog.reaches_done _ _⟩
  | cons chunk chunks ih =>
      have heffect : d.effect (.write_all temporary chunk)
          = some (d.put temporary ⟨file.text ++ chunk, false⟩) := by
        rw [Disk.effect, hfile]
        rfl
      obtain ⟨d', file', hfile', hrest⟩ :=
        ih (d := d.put temporary ⟨file.text ++ chunk, false⟩) (Function.update_self ..)
      exact ⟨d', file', hfile', reaches_bind (reaches_execute heffect) hrest⟩

/-- **A replacement can succeed** under any name that is free. -/
theorem replace_file_can_succeed (chunks : List (List α)) (hfree : d.now temporary = none) :
    ∃ d', Prog.Reaches (Disk.respond (E := E)) (replace_file temporary path chunks ()) d
      (.ok (), ()) d' := by
  have hcreate : d.effect (.create_new temporary)
      = some (d.change (Function.update d.now temporary (some ⟨[], false⟩))) := by
    rw [Disk.effect, if_pos hfree]
  obtain ⟨d₂, file, hfile, hwrite⟩ := reaches_write_chunks (E := E) chunks
    (d := d.change (Function.update d.now temporary (some ⟨[], false⟩))) (Function.update_self ..)
  have hsync : d₂.effect (.sync_all temporary) = some (d₂.put temporary ⟨file.text, true⟩) := by
    rw [Disk.effect, hfile]
    rfl
  have hrename : ∃ d₃, (d₂.put temporary ⟨file.text, true⟩).effect (.rename temporary path)
      = some d₃ := by
    have hnow : (d₂.put temporary ⟨file.text, true⟩).now temporary = some ⟨file.text, true⟩ :=
      Function.update_self ..
    rw [Disk.effect, hnow]
    exact ⟨_, rfl⟩
  obtain ⟨d₃, hrename⟩ := hrename
  have hwritten : Prog.Reaches (Disk.respond (E := E)) (write_temporary temporary chunks ()) d
      (.ok (), ()) (d₂.put temporary ⟨file.text, true⟩) :=
    reaches_bind (reaches_execute hcreate) (reaches_bind hwrite (reaches_execute hsync))
  have hpublished : Prog.Reaches (Disk.respond (E := E)) (publish temporary path ())
      (d₂.put temporary ⟨file.text, true⟩) (.ok (), ()) { d₃ with earlier := [] } :=
    reaches_bind (reaches_execute hrename) (reaches_execute rfl)
  exact ⟨_, reaches_bind (reaches_attempt (reaches_bind hwritten hpublished))
    (Prog.reaches_done _ _)⟩

end Rules

/-! ## A name that is replaced again and again -/

/-- The directory, the replacement under way with its text, what the last one to
succeed has put there, and the texts of those begun since. -/
structure Register (N α E : Type) where
  disk : Disk N α
  writing : Option (List α × Prog (Call N α) (Answer E) (Except E Unit × Unit))
  last : Option (List α)
  pending : List (List α)

/-- A replacement begins, one of its calls is answered, the process stops, or the power is
lost: one of the views is found, where files not made to last hold anything. -/
inductive Event (N α E : Type)
  | start (temporary : N) (chunks : List (List α))
  | answer (o : Outcome E)
  | stop
  | power_loss (view : ℕ) (lost : N → List α)

namespace Register

/-- What is found of a view. -/
def recovered (lost : N → List α) (names : Names N α) : Names N α := fun name =>
  (names name).map fun file => if file.synced then file else ⟨lost name, true⟩

/-- The register once the replacement has got to here. -/
def progressed (r : Register N α E) (text : List α)
    (s : Prog (Call N α) (Answer E) (Except E Unit × Unit) × Disk N α) : Register N α E :=
  match s.1.result with
  | some (.ok (), _) => ⟨s.2, none, some text, []⟩
  | some (.error _, _) => { r with disk := s.2, writing := none }
  | none => { r with disk := s.2, writing := some (text, s.1) }

def step (path : N) (r : Register N α E) : Event N α E → Option (Register N α E)
  | .start temporary chunks =>
      if r.writing.isNone ∧ path ≠ temporary then
        some { r with
          writing := some (chunks.flatten, replace_file temporary path chunks ())
          pending := chunks.flatten :: r.pending }
      else none
  | .answer o => r.writing.bind fun (text, prog) =>
      (Prog.step Disk.respond (prog, r.disk) o).map (r.progressed text)
  | .stop => some { r with writing := none }
  | .power_loss view lost => (r.disk.views[view]?).map fun names =>
      { r with disk := ⟨recovered lost names, []⟩, writing := none }

/-- The file a replacement that has succeeded leaves. -/
def whole (text : List α) : File α := ⟨text, true⟩

/-- What the name may hold. -/
def Expected (last : Option (List α)) (pending : List (List α)) (entry : Option (File α)) : Prop :=
  entry = last.map whole ∨ ∃ text ∈ pending, entry = some (whole text)

/-- Every view has a whole text under the name. -/
def Intact (path : N) (last : Option (List α)) (pending : List (List α)) (d : Disk N α) : Prop :=
  ∀ names ∈ d.views, Expected last pending (names path)

section Invariant

variable {path : N} {r r' : Register N α E} {last : Option (List α)} {pending : List (List α)}

omit [DecidableEq N] in
/-- More writes under way allow more texts. -/
theorem Expected.mono {pending' : List (List α)} {entry : Option (File α)}
    (h : Expected last pending entry) (hsub : ∀ text ∈ pending, text ∈ pending') :
    Expected last pending' entry :=
  h.imp_right fun ⟨text, hmem, heq⟩ => ⟨text, hsub text hmem, heq⟩

omit [DecidableEq N] in
/-- In the middle of a replacement every view has the text or an entry from before. -/
theorem Intact.midway {text : List α} {before d : Disk N α}
    (hbefore : Intact path last pending before) (h : Midway path text before d)
    (hmem : text ∈ pending) : Intact path last pending d := by
  intro names hnames
  rcases h.views names hnames with hnew | ⟨names', hnames', heq⟩
  · exact .inr ⟨text, hmem, hnew⟩
  · rw [heq]
    exact hbefore names' hnames'

/-- The replacement under way is one from a directory with whole texts. -/
structure Writes (path : N) (r : Register N α E) (text : List α)
    (prog : Prog (Call N α) (Answer E) (Except E Unit × Unit)) (before : Disk N α) : Prop where
  mem : text ∈ r.pending
  intact : Intact path r.last r.pending before
  inv : Midway path text before r.disk
  safe : (replacing E path text before).Safe
    (Ends (fun _ _ d => Settled path text d) fun _ _ _ => True) prog r.disk

structure Sound (path : N) (r : Register N α E) : Prop where
  intact : Intact path r.last r.pending r.disk
  writes : ∀ text prog, r.writing = some (text, prog) → ∃ before, Writes path r text prog before

/-- A write that starts touches no file yet. -/
theorem Sound.start {temporary : N} {chunks : List (List α)} (h : Sound path r)
    (hstep : r.step path (.start temporary chunks) = some r') : Sound path r' := by
  rw [step, Option.ite_none_right_eq_some] at hstep
  obtain ⟨⟨-, hne⟩, hr'⟩ := hstep
  obtain rfl := Option.some.inj hr'
  have hintact : Intact path r.last (chunks.flatten :: r.pending) r.disk := fun names hnames =>
    (h.intact names hnames).mono fun text hmem => List.mem_cons_of_mem _ hmem
  refine ⟨hintact, ?_⟩
  rintro text prog hwriting
  obtain ⟨rfl, rfl⟩ := Prod.mk.inj (Option.some.inj hwriting)
  exact ⟨r.disk, List.mem_cons_self, hintact, .inl (.refl path r.disk),
    wp_replace_file hne chunks⟩

/-- One answered call of the write under way: the entry is still an expected one in every
view. -/
theorem Sound.answer {o : Outcome E} (h : Sound path r)
    (hstep : r.step path (.answer o) = some r') : Sound path r' := by
  obtain ⟨⟨text, prog⟩, hwriting, hstep⟩ := Option.bind_eq_some_iff.mp hstep
  obtain ⟨⟨prog', disk⟩, hprog, rfl⟩ := Option.map_eq_some_iff.mp hstep
  obtain ⟨before, hw⟩ := h.writes text prog hwriting
  have hrun : Lts.run (Prog.step (replacing E path text before).respond) (prog, r.disk) [o]
      = some (prog', disk) := by
    rw [Lts.run_cons]
    exact Option.bind_eq_some_iff.mpr ⟨_, hprog, rfl⟩
  -- the answer is one step of the replacement, which its contract covers
  obtain ⟨hinv, hsafe⟩ := Contract.Safe.run hw.inv hw.safe hrun
  have hintact := hw.intact.midway hinv hw.mem
  cases hresult : prog'.result with
  -- the write goes on
  | none =>
      have hr' : r.progressed text (prog', disk)
          = { r with disk, writing := some (text, prog') } := by
        unfold progressed
        rw [hresult]
      rw [hr']
      refine ⟨hintact, ?_⟩
      rintro text' prog'' heq
      obtain ⟨rfl, rfl⟩ := Prod.mk.inj (Option.some.inj heq)
      exact ⟨before, hw.mem, hw.intact, hinv, hsafe⟩
  | some result =>
      obtain ⟨_ | ⟨⟩, ⟨⟩⟩ := result
      -- it has failed, and the name is where the failure left it
      · have hr' : r.progressed text (prog', disk) = { r with disk, writing := none } := by
          unfold progressed
          rw [hresult]
        rw [hr']
        exact ⟨hintact, fun _ _ heq => by cases heq⟩
      · -- the name holds the text in the one view there is
        have hsettled : Settled path text disk := hsafe.result hresult
        have hr' : r.progressed text (prog', disk) = ⟨disk, none, some text, []⟩ := by
          unfold progressed
          rw [hresult]
        rw [hr']
        refine ⟨fun names hnames => ?_, fun _ _ heq => by cases heq⟩
        rw [Disk.views, hsettled.earlier, List.mem_singleton] at hnames
        rw [hnames]
        exact .inl hsettled.now

/-- A power loss leaves one of the views, and each of them was expected. -/
theorem Sound.power_loss {view : ℕ} {lost : N → List α} (h : Sound path r)
    (hstep : r.step path (.power_loss view lost) = some r') : Sound path r' := by
  obtain ⟨names, hview, rfl⟩ := Option.map_eq_some_iff.mp hstep
  have hnames := h.intact names (List.mem_of_getElem? hview)
  refine ⟨fun names' hnames' => ?_, fun _ _ heq => by cases heq⟩
  obtain rfl := List.mem_singleton.mp hnames'
  -- what has been made to last comes back as it was
  rcases hnames with hlast | ⟨text, hmem, hpending⟩
  · refine .inl ?_
    change (names path).map _ = _
    rw [hlast]
    cases r.last <;> rfl
  · refine .inr ⟨text, hmem, ?_⟩
    change (names path).map _ = _
    rw [hpending]
    rfl

/-- One event, by the event. -/
theorem Sound.step {e : Event N α E} (h : Sound path r) (hstep : r.step path e = some r') :
    Sound path r' := by
  cases e with
  | start temporary chunks => exact h.start hstep
  | answer o => exact h.answer hstep
  | stop =>
      obtain rfl := Option.some.inj hstep
      exact ⟨h.intact, fun _ _ heq => by cases heq⟩
  | power_loss view lost => exact h.power_loss hstep

/-- **Whatever fails and whenever the power is lost**, the name holds the last text that a
replacement has put there, or one begun since, and holds it whole. -/
theorem run_intact {d : Disk N α} (hd : Intact path last [] d) {events : List (Event N α E)}
    (hrun : Lts.run (Register.step path) ⟨d, none, last, []⟩ events = some r) :
    Intact path r.last r.pending r.disk := by
  have hstart : Sound path (⟨d, none, last, []⟩ : Register N α E) :=
    ⟨hd, fun _ _ heq => by cases heq⟩
  exact (Lts.invariant (fun _ _ _ h hstep => h.step hstep) hstart hrun).intact

/-- What holds of the first text and of every one begun holds of all there are. -/
structure Texts (P : List α → Prop) (r : Register N α E) : Prop where
  last : ∀ text ∈ r.last, P text
  pending : ∀ text ∈ r.pending, P text
  writing : ∀ text prog, r.writing = some (text, prog) → P text

/-- An event brings no text that was not started. -/
theorem Texts.step {P : List α → Prop} {e : Event N α E} (h : Texts P r)
    (he : ∀ temporary chunks, e = .start temporary chunks → P chunks.flatten)
    (hstep : r.step path e = some r') : Texts P r' := by
  cases e with
  | start temporary chunks =>
      rw [Register.step, Option.ite_none_right_eq_some] at hstep
      obtain rfl := Option.some.inj hstep.2
      have hnew := he temporary chunks rfl
      refine ⟨h.last, List.forall_mem_cons.mpr ⟨hnew, h.pending⟩, ?_⟩
      rintro text prog heq
      obtain ⟨rfl, rfl⟩ := Prod.mk.inj (Option.some.inj heq)
      exact hnew
  | answer o =>
      obtain ⟨⟨text, prog⟩, hwriting, hstep⟩ := Option.bind_eq_some_iff.mp hstep
      obtain ⟨s, -, rfl⟩ := Option.map_eq_some_iff.mp hstep
      have htext := h.writing text prog hwriting
      -- the write has succeeded, has failed, or goes on
      unfold progressed
      split
      · exact ⟨fun _ hmem => (Option.some.inj hmem) ▸ htext, nofun, nofun⟩
      · exact ⟨h.last, h.pending, nofun⟩
      · refine ⟨h.last, h.pending, ?_⟩
        rintro text' prog' heq
        obtain ⟨rfl, rfl⟩ := Prod.mk.inj (Option.some.inj heq)
        exact htext
  | stop =>
      obtain rfl := Option.some.inj hstep
      exact ⟨h.last, h.pending, nofun⟩
  | power_loss view lost =>
      obtain ⟨names, -, rfl⟩ := Option.map_eq_some_iff.mp hstep
      exact ⟨h.last, h.pending, nofun⟩

/-- Every text of a run, synced or under way, is one that the run started with or wrote. -/
theorem run_texts {P : List α → Prop} {d : Disk N α} (hlast : ∀ text ∈ last, P text)
    {events : List (Event N α E)}
    (hevents : ∀ temporary chunks, .start temporary chunks ∈ events → P chunks.flatten)
    (hrun : Lts.run (Register.step path) ⟨d, none, last, []⟩ events = some r) : Texts P r := by
  have hstart : Texts P (⟨d, none, last, []⟩ : Register N α E) := ⟨hlast, nofun, nofun⟩
  have halong : Lts.Along (Register.step path)
      (fun _ e => ∀ temporary chunks, e = .start temporary chunks → P chunks.flatten)
      (⟨d, none, last, []⟩ : Register N α E) events :=
    Lts.along_of_forall (fun e he temporary chunks heq => by
      subst heq
      exact hevents temporary chunks he) _
  exact Lts.invariant_along (fun _ _ _ h he hstep => h.step he hstep) hstart halong hrun

end Invariant

end Register

end Calls

end SnapshotEtl.Lib.AtomicFile
