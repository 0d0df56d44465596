/-
Programs as trees of calls, and the rules for what one of them may ask.

A program asks its environment one thing after another and goes on with the
answer. A `Contract` says how the environment can answer, what may be asked of
it when, and what stays true of it as long as nothing else is asked; that last
part is proved once, per call, and every program may then rely on it between
its calls. `Safe` is the obligation on a program, and the `wp` rules discharge
it along the program's own text.

A `Program` also has a state and an error channel. The state is not lost with
an error: what was assigned before a failure stays assigned for the caller that
catches it.
-/
import SnapshotEtl.Lib.Lts

set_option autoImplicit false

namespace SnapshotEtl.Lib

/-- A program over the calls `C`, of which `c` is answered by an `A c`. -/
inductive Prog (C : Type) (A : C → Type) (α : Type) : Type
  | done (a : α)
  | call (c : C) (k : A c → Prog C A α)

namespace Prog

variable {C : Type} {A : C → Type} {α β : Type}

def bind (x : Prog C A α) (f : α → Prog C A β) : Prog C A β :=
  match x with
  | done a => f a
  | call c k => call c fun a => (k a).bind f

/-- What a program has ended with. -/
def result : Prog C A α → Option α
  | done a => some a
  | call _ _ => none

/-- The program in its environment: one call is answered. -/
def step {O W : Type} (respond : W → (c : C) → O → Option (A c × W)) :
    Prog C A α × W → O → Option (Prog C A α × W)
  | (.done _, _), _ => none
  | (.call c k, w), o => (respond w c o).map fun r => (k r.1, r.2)

section reaches

variable {O W β : Type} {respond : W → (c : C) → O → Option (A c × W)}

/-- The program can end so, if its calls are answered in some way. -/
def Reaches (respond : W → (c : C) → O → Option (A c × W)) (x : Prog C A α) (w : W) (a : α)
    (w' : W) : Prop :=
  ∃ outcomes, Lts.run (step respond) (x, w) outcomes = some (.done a, w')

theorem reaches_done (a : α) (w : W) : Reaches respond (.done a) w a w := ⟨[], rfl⟩

/-- A run of the first part is one of both parts, up to the second. -/
theorem run_bind {x : Prog C A α} {f : α → Prog C A β} {a : α} {w w' : W} {outcomes : List O}
    (h : Lts.run (step respond) (x, w) outcomes = some (.done a, w')) :
    Lts.run (step respond) (x.bind f, w) outcomes = some (f a, w') := by
  induction outcomes generalizing x w with
  | nil =>
      obtain ⟨rfl, rfl⟩ := Prod.mk.inj (Option.some.inj h)
      rfl
  | cons o outcomes ih =>
      cases x with
      | done b => cases h
      | call c k =>
          obtain ⟨s, hs, hrun⟩ := Lts.run_cons_eq_some.mp h
          obtain ⟨r, hr, rfl⟩ := Option.map_eq_some_iff.mp hs
          have hstep : step respond ((call c k).bind f, w) o = some ((k r.1).bind f, r.2) :=
            Option.map_eq_some_iff.mpr ⟨r, hr, rfl⟩
          exact Lts.run_cons_eq_some.mpr ⟨_, hstep, ih hrun⟩

/-- Executions of two programs compose. -/
theorem Reaches.bind {x : Prog C A α} {f : α → Prog C A β} {a : α} {b : β} {w w' w'' : W}
    (hx : Reaches respond x w a w') (hf : Reaches respond (f a) w' b w'') :
    Reaches respond (x.bind f) w b w'' := by
  obtain ⟨before, hbefore⟩ := hx
  obtain ⟨after, hafter⟩ := hf
  exact ⟨before ++ after, Lts.run_trans _ (run_bind hbefore) hafter⟩

theorem reaches_call {c : C} {k : A c → Prog C A α} {o : O} {r : A c × W} {a : α} {w w' : W}
    (hr : respond w c o = some r) (hk : Reaches respond (k r.1) r.2 a w') :
    Reaches respond (.call c k) w a w' := by
  obtain ⟨outcomes, hrun⟩ := hk
  have hstep : step respond (.call c k, w) o = some (k r.1, r.2) :=
    Option.map_eq_some_iff.mpr ⟨r, hr, rfl⟩
  exact ⟨o :: outcomes, Lts.run_cons_eq_some.mpr ⟨_, hstep, hrun⟩⟩

end reaches

end Prog

/-! ## Contracts -/

/-- An environment with the choices `O` and the states `W`: how it answers, what
must stay true of it, and what may be asked. Whatever is allowed keeps the rest
true. -/
structure Contract (C : Type) (A : C → Type) (O W : Type) where
  respond : W → (c : C) → O → Option (A c × W)
  Inv : W → Prop
  Allowed : W → C → Prop
  keeps : ∀ {w : W} {c : C} {o : O} {a : A c} {w' : W},
    Inv w → Allowed w c → respond w c o = some (a, w') → Inv w'

namespace Contract

variable {C : Type} {A : C → Type} {O W α β : Type} (S : Contract C A O W)

/-- Every call the program can get to is allowed, and where it ends, `post`
holds. -/
def Safe (post : α → W → Prop) : Prog C A α → W → Prop
  | .done a, w => post a w
  | .call c k, w => S.Allowed w c ∧
      ∀ o a w', S.respond w c o = some (a, w') → S.Inv w' → Safe post (k a) w'

variable {S}

/-- A weaker postcondition holds too. -/
theorem Safe.mono {post post' : α → W → Prop} (h : ∀ a w, S.Inv w → post a w → post' a w)
    {x : Prog C A α} {w : W} (hw : S.Inv w) (hx : S.Safe post x w) : S.Safe post' x w := by
  induction x generalizing w with
  | done a => exact h a w hw hx
  | call c k ih => exact ⟨hx.1, fun o a w' hr hw' => ih a hw' (hx.2 o a w' hr hw')⟩

/-- A sequence is safe when its first part is, with the safety of the second as its
postcondition. -/
theorem safe_bind {post : β → W → Prop} {x : Prog C A α} {f : α → Prog C A β} {w : W} :
    S.Safe post (x.bind f) w ↔ S.Safe (fun a w => S.Safe post (f a) w) x w := by
  induction x generalizing w with
  | done a => rfl
  | call c k ih =>
      simp only [Prog.bind, Safe, ih]

/-- One call of a safe program, whatever the answer: the environment stays as it
must and the rest is safe. -/
theorem Safe.answer {post : α → W → Prop} {c : C} {k : A c → Prog C A α} {w w' : W} {o : O}
    {a : A c} (hw : S.Inv w) (h : S.Safe post (.call c k) w)
    (hr : S.respond w c o = some (a, w')) : S.Inv w' ∧ S.Safe post (k a) w' :=
  have hw' := S.keeps hw h.1 hr
  ⟨hw', h.2 o a w' hr hw'⟩

/-- **Runs of a safe program.** At every point of one the environment is as it must be,
and what is left of the program is safe. -/
theorem Safe.run {post : α → W → Prop} {x x' : Prog C A α} {w w' : W} {outcomes : List O}
    (hw : S.Inv w) (h : S.Safe post x w)
    (hrun : Lts.run (Prog.step S.respond) (x, w) outcomes = some (x', w')) :
    S.Inv w' ∧ S.Safe post x' w' := by
  refine Lts.invariant (P := fun s => S.Inv s.2 ∧ S.Safe post s.1 s.2) ?_ ⟨hw, h⟩ hrun
  rintro ⟨x, w⟩ o ⟨x', w'⟩ ⟨hw, h⟩ hstep
  cases x with
  | done a => cases hstep
  | call c k =>
      obtain ⟨r, hr, heq⟩ := Option.map_eq_some_iff.mp hstep
      cases heq
      exact h.answer hw hr

/-- A safe program that has ended is at its postcondition. -/
theorem Safe.result {post : α → W → Prop} {x : Prog C A α} {w : W} {a : α}
    (h : S.Safe post x w) (ha : x.result = some a) : post a w := by
  cases x with
  | done b =>
      obtain rfl := Option.some.inj ha
      exact h
  | call c k => cases ha

end Contract

/-! ## Programs with a state and errors -/

/-- A program with the state `σ` that ends with a value or an error, and with
its state either way. -/
def Program (C : Type) (A : C → Type) (σ ε α : Type) : Type :=
  σ → Prog C A (Except ε α × σ)

namespace Program

variable {C : Type} {A : C → Type} {σ ε α β : Type}

protected def pure (a : α) : Program C A σ ε α := fun s => .done (.ok a, s)

protected def bind (x : Program C A σ ε α) (f : α → Program C A σ ε β) :
    Program C A σ ε β := fun s =>
  (x s).bind fun
    | (.ok a, s') => f a s'
    | (.error e, s') => .done (.error e, s')

instance : Monad (Program C A σ ε) where
  pure := Program.pure
  bind := Program.bind

def fail (e : ε) : Program C A σ ε α := fun s => .done (.error e, s)

/-- The result of a program as a value, its error included. -/
def attempt (x : Program C A σ ε α) : Program C A σ ε (Except ε α) := fun s =>
  (x s).bind fun r => .done (.ok r.1, r.2)

/-- The program with its errors as those of its caller. -/
def map_error {ε' : Type} (f : ε → ε') (x : Program C A σ ε α) : Program C A σ ε' α := fun s =>
  (x s).bind fun r => .done (r.1.mapError f, r.2)

def read : Program C A σ ε σ := fun s => .done (.ok s, s)

def assign (f : σ → σ) : Program C A σ ε Unit := fun s => .done (.ok (), f s)

def ask (c : C) : Program C A σ ε (A c) := fun s => .call c fun a => .done (.ok a, s)

section reaches

variable {O W : Type} {respond : W → (c : C) → O → Option (A c × W)}
  {x : Program C A σ ε α} {s s' : σ} {w w' w'' : W}

/-- Executions compose in the monad of programs. -/
theorem reaches_bind {f : α → Program C A σ ε β} {a : α} {r : Except ε β × σ}
    (hx : Prog.Reaches respond (x s) w (.ok a, s') w')
    (hf : Prog.Reaches respond (f a s') w' r w'') :
    Prog.Reaches respond ((x >>= f) s) w r w'' :=
  Prog.Reaches.bind hx hf

/-- An attempt has the execution of its program, with the error as a value. -/
theorem reaches_attempt {r : Except ε α × σ} (hx : Prog.Reaches respond (x s) w r w') :
    Prog.Reaches respond (x.attempt s) w (.ok r.1, r.2) w' :=
  Prog.Reaches.bind hx (Prog.reaches_done _ _)

end reaches

end Program

/-! ## The rules -/

section rules

variable {C : Type} {A : C → Type} {O W σ ε α β : Type} (S : Contract C A O W)

/-- What holds where a program ends, with a value or with an error. -/
def Ends (Q : α → σ → W → Prop) (E : ε → σ → W → Prop) (r : Except ε α × σ) (w : W) : Prop :=
  match r.1 with
  | .ok a => Q a r.2 w
  | .error e => E e r.2 w

/-- The program is safe from here, and ends in `Q` or, with an error, in `E`. -/
def wp (x : Program C A σ ε α) (Q : α → σ → W → Prop) (E : ε → σ → W → Prop) (s : σ) (w : W) :
    Prop :=
  S.Safe (Ends Q E) (x s) w

variable {S} {Q : α → σ → W → Prop} {E : ε → σ → W → Prop} {s : σ} {w : W}

@[simp] theorem wp_pure {a : α} :
    wp S (Pure.pure a : Program C A σ ε α) Q E s w ↔ Q a s w := Iff.rfl

/-- The rule of sequence. -/
@[simp] theorem wp_bind {x : Program C A σ ε α} {f : α → Program C A σ ε β}
    {Q : β → σ → W → Prop} :
    wp S (x >>= f) Q E s w ↔ wp S x (fun a s w => wp S (f a) Q E s w) E s w := by
  change S.Safe _ ((x s).bind _) w ↔ _
  rw [Contract.safe_bind]
  have heq : ∀ (r : Except ε α × σ) (w : W), S.Safe (Ends Q E) (match r with
      | (.ok a, s') => f a s'
      | (.error e, s') => .done (.error e, s')) w ↔
      Ends (fun a s w => wp S (f a) Q E s w) E r w := by
    rintro ⟨_ | _, s'⟩ w
    · exact Iff.rfl
    · exact Iff.rfl
  simp only [heq]
  exact Iff.rfl

@[simp] theorem wp_fail {e : ε} :
    wp S (Program.fail e : Program C A σ ε α) Q E s w ↔ E e s w := Iff.rfl

/-- After an attempt both ways out go on. -/
@[simp] theorem wp_attempt {x : Program C A σ ε α} {Q : Except ε α → σ → W → Prop} :
    wp S x.attempt Q E s w ↔ wp S x (fun a => Q (.ok a)) (fun e => Q (.error e)) s w := by
  change S.Safe _ ((x s).bind _) w ↔ _
  rw [Contract.safe_bind]
  have heq : ∀ (r : Except ε α × σ) (w : W), Q r.1 r.2 w ↔
      Ends (fun a => Q (.ok a)) (fun e => Q (.error e)) r w := by
    rintro ⟨_ | _, s'⟩ w
    · exact Iff.rfl
    · exact Iff.rfl
  change S.Safe (fun (r : Except ε α × σ) w => Q r.1 r.2 w) (x s) w ↔ _
  simp only [heq]
  exact Iff.rfl

@[simp] theorem wp_map_error {ε' : Type} {f : ε → ε'} {x : Program C A σ ε α}
    {E : ε' → σ → W → Prop} :
    wp S (x.map_error f) Q E s w ↔ wp S x Q (fun e => E (f e)) s w := by
  change S.Safe _ ((x s).bind _) w ↔ _
  rw [Contract.safe_bind]
  have heq : ∀ (r : Except ε α × σ) (w : W), S.Safe (Ends Q E)
      (.done (r.1.mapError f, r.2) : Prog C A (Except ε' α × σ)) w ↔
      Ends Q (fun e => E (f e)) r w := by
    rintro ⟨_ | _, s'⟩ w
    · exact Iff.rfl
    · exact Iff.rfl
  simp only [heq]
  exact Iff.rfl

@[simp] theorem wp_read {Q : σ → σ → W → Prop} :
    wp S (Program.read : Program C A σ ε σ) Q E s w ↔ Q s s w := Iff.rfl

@[simp] theorem wp_assign {f : σ → σ} {Q : Unit → σ → W → Prop} :
    wp S (Program.assign f : Program C A σ ε Unit) Q E s w ↔ Q () (f s) w := Iff.rfl

/-- The rule for one call: it is allowed, and every answer keeps the invariant. -/
theorem wp_ask {c : C} {Q : A c → σ → W → Prop} :
    wp S (Program.ask c : Program C A σ ε (A c)) Q E s w ↔
      S.Allowed w c ∧ ∀ o a w', S.respond w c o = some (a, w') → S.Inv w' → Q a s w' := Iff.rfl

/-- What a program ends in may be weakened, with the environment's invariant at
hand. -/
theorem wp.mono {Q' : α → σ → W → Prop} {E' : ε → σ → W → Prop} {x : Program C A σ ε α}
    (hw : S.Inv w) (hx : wp S x Q E s w) (hQ : ∀ a s w, S.Inv w → Q a s w → Q' a s w)
    (hE : ∀ e s w, S.Inv w → E e s w → E' e s w) : wp S x Q' E' s w := by
  refine Contract.Safe.mono (fun r w hw h => ?_) hw hx
  rcases r with ⟨_ | _, s'⟩
  · exact hE _ _ _ hw h
  · exact hQ _ _ _ hw h

/-- What is known of a program's end is what its continuation may start from. -/
theorem wp.then {Q' : β → σ → W → Prop} {E' : ε → σ → W → Prop} {x : Program C A σ ε α}
    {f : α → Program C A σ ε β} (hw : S.Inv w) (hx : wp S x Q E s w)
    (hf : ∀ a s w, S.Inv w → Q a s w → wp S (f a) Q' E' s w)
    (hE : ∀ e s w, S.Inv w → E e s w → E' e s w) : wp S (x >>= f) Q' E' s w :=
  wp_bind.mpr (hx.mono hw hf hE)

end rules

/-! ## Programs of a part of a system -/

/-- The program over the calls of a larger system. -/
def Prog.embed {C C' : Type} {A : C → Type} {A' : C' → Type} {α : Type} (call' : C → C')
    (back : (c : C) → A' (call' c) → A c) : Prog C A α → Prog C' A' α
  | .done a => .done a
  | .call c k => .call (call' c) fun a => (k (back c a)).embed call' back

def Program.embed {C C' : Type} {A : C → Type} {A' : C' → Type} {σ ε α : Type} (call' : C → C')
    (back : (c : C) → A' (call' c) → A c) (x : Program C A σ ε α) : Program C' A' σ ε α :=
  fun s => (x s).embed call' back

section embedding

variable {C C' : Type} {A : C → Type} {A' : C' → Type} {O O' W W' σ ε α : Type}
  {S : Contract C A O W} {S' : Contract C' A' O' W'} {call' : C → C'}
  {back : (c : C) → A' (call' c) → A c}

/-- The part of a larger system that keeps a contract: a call of the part is answered as
the part answers it, may be made where the part allows it, and leaves a frame of the
rest alone. -/
structure Part (S : Contract C A O W) (S' : Contract C' A' O' W') (call' : C → C')
    (back : (c : C) → A' (call' c) → A c) (view : W' → W) (frame : W' → Prop) : Prop where
  inv : ∀ {w}, S'.Inv w → S.Inv (view w)
  allowed : ∀ {w c}, S'.Inv w → frame w → S.Allowed (view w) c → S'.Allowed w (call' c)
  respond : ∀ {w c o a w'}, S'.respond w (call' c) o = some (a, w') →
    ∃ o', S.respond (view w) c o' = some (back c a, view w')
  keeps : ∀ {w c o a w'}, frame w → S'.respond w (call' c) o = some (a, w') → frame w'

/-- **A program of a part** is safe in the system, and leaves the frame alone. -/
theorem Contract.Safe.embed {view : W' → W} {frame : W' → Prop}
    (h : Part S S' call' back view frame) {post : α → W → Prop} {x : Prog C A α} {w : W'}
    (hw : S'.Inv w) (hframe : frame w) (hx : S.Safe post x (view w)) :
    S'.Safe (fun a w => frame w ∧ post a (view w)) (x.embed call' back) w := by
  induction x generalizing w with
  | done a => exact ⟨hframe, hx⟩
  | call c k ih =>
      refine ⟨h.allowed hw hframe hx.1, fun o a w' hr hw' => ?_⟩
      obtain ⟨o', hr'⟩ := h.respond hr
      exact ih (back c a) hw' (h.keeps hframe hr) (hx.2 o' _ _ hr' (h.inv hw'))

end embedding

end SnapshotEtl.Lib
