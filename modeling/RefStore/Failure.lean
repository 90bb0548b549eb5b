/-!
# Failures and tasks

A task runs on a state, may change it, and ends with a value or with a failure. A failure is an
error, which callers may handle, or a fault: a use outside the contract, after which nothing runs.
State changed before a failure stays changed.
-/

namespace RefStore

/-- Uses outside the contract of an operation. -/
inductive Fault where
  | outsidePage | emptySplit | poolMisuse | zeroPageSize | foreignHandle | overflow | endless
  deriving DecidableEq, Repr

inductive Failure (ε : Type) where
  | error (cause : ε)
  | fault (kind : Fault)
  deriving DecidableEq, Repr

namespace Failure

variable {ε ε' : Type}

def map (f : ε → ε') : Failure ε → Failure ε'
  | .error cause => .error (f cause)
  | .fault kind => .fault kind

end Failure

abbrev Checked (ε α : Type) := Except (Failure ε) α

abbrev Task (σ ε : Type) := ExceptT (Failure ε) (StateM σ)

def refuse {ε α : Type} {m : Type → Type} [MonadExcept (Failure ε) m] (cause : ε) : m α :=
  throw (.error cause)

def halt {ε α : Type} {m : Type → Type} [MonadExcept (Failure ε) m] (kind : Fault) : m α :=
  throw (.fault kind)

/-- Errors of one layer that the layer above carries inside its own. -/
class Within (ε : semiOutParam Type) (ε' : Type) where
  embed : ε → ε'

/-- A state that is a component of a larger one. -/
class Part (τ : semiOutParam Type) (σ : Type) where
  get : σ → τ
  put : τ → σ → σ

namespace Checked

variable {ε ε' α : Type}

def mapError (f : ε → ε') (x : Checked ε α) : Checked ε' α :=
  Except.mapError (Failure.map f) x

@[simp] theorem mapError_ok (f : ε → ε') (a : α) : mapError f (.ok a : Checked ε α) = .ok a := rfl

@[simp] theorem mapError_error (f : ε → ε') (cause : Failure ε) :
    mapError f (.error cause : Checked ε α) = .error (cause.map f) := rfl

instance [Within ε ε'] : MonadLift (Except (Failure ε)) (Except (Failure ε')) where
  monadLift := mapError Within.embed

end Checked

namespace Task

variable {σ τ ε ε' α : Type}

def start (t : Task σ ε α) (s : σ) : Checked ε α × σ := StateT.run (ExceptT.run t) s

def ofStep (f : σ → Checked ε α × σ) : Task σ ε α := ExceptT.mk fun s => f s

@[simp] theorem start_ofStep (f : σ → Checked ε α × σ) (s : σ) : (ofStep f).start s = f s := rfl

def state : Task σ ε σ := ofStep fun s => (.ok s, s)

def change (f : σ → σ) : Task σ ε Unit := ofStep fun s => (.ok (), f s)

@[simp] theorem start_state (s : σ) : (state : Task σ ε σ).start s = (.ok s, s) := rfl

@[simp] theorem start_change (f : σ → σ) (s : σ) :
    (change f : Task σ ε Unit).start s = (.ok (), f s) := rfl

@[simp] theorem start_pure (a : α) (s : σ) : (pure a : Task σ ε α).start s = (.ok a, s) := rfl

theorem start_bind {β : Type} (t : Task σ ε α) (f : α → Task σ ε β) (s : σ) :
    (t >>= f).start s =
      match t.start s with
      | (.ok a, s') => (f a).start s'
      | (.error e, s') => (.error e, s') := by
  simp only [start, bind, ExceptT.bind, ExceptT.mk, ExceptT.run, StateT.bind, StateT.run]
  rcases h : (t : StateM σ (Checked ε α)) s with ⟨_ | a, s'⟩ <;> rfl

def ofChecked (x : Checked ε α) : Task σ ε α := ofStep fun s => (x, s)

@[simp] theorem start_ofChecked (x : Checked ε α) (s : σ) :
    (ofChecked x : Task σ ε α).start s = (x, s) := rfl

def mapError (f : ε → ε') (t : Task σ ε α) : Task σ ε' α :=
  ofStep fun s => ((t.start s).1.mapError f, (t.start s).2)

@[simp] theorem start_mapError (f : ε → ε') (t : Task σ ε α) (s : σ) :
    (t.mapError f).start s = ((t.start s).1.mapError f, (t.start s).2) := rfl

/-- The state that a task leaves when it succeeds. -/
def result (t : Task σ ε Unit) (s : σ) : Checked ε σ := (t.start s).1.map fun _ => (t.start s).2

/-- An error becomes a value; a fault stays a fault. -/
def attempt (t : Task σ ε α) : Task σ ε' (Except ε α) :=
  ofStep fun s =>
    match t.start s with
    | (.ok a, s') => (.ok (.ok a), s')
    | (.error (.error cause), s') => (.ok (.error cause), s')
    | (.error (.fault kind), s') => (.error (.fault kind), s')

/-- A task on a component leaves the rest of the state alone. -/
def onPart [Part τ σ] (t : Task τ ε α) : Task σ ε α :=
  ofStep fun s =>
    let done := t.start (Part.get s)
    (done.1, Part.put done.2 s)

@[simp] theorem start_onPart [Part τ σ] (t : Task τ ε α) (s : σ) :
    (onPart t : Task σ ε α).start s =
      ((t.start (Part.get s)).1, Part.put (t.start (Part.get s)).2 s) := rfl

instance [Within ε ε'] : MonadLift (Task σ ε) (Task σ ε') where
  monadLift := mapError Within.embed

instance [Part τ σ] : MonadLift (Task τ ε) (Task σ ε) where
  monadLift := onPart

end Task

end RefStore
