import Mathlib.Logic.Basic

/-!
# Reading the fields of a constant object

Subscripting a constant object has no meaning for a field the object does not
have.  A program subscripts fields, asks the object and its surroundings
questions, and throws; it is defined where it subscripts no missing field.
-/

inductive AccessOutcome (ε κ α : Type)
  | returns (a : α)
  | throws (e : ε)
  | undefined (key : κ)

/-- A program that reads a constant object of type `ο` in surroundings of type `σ`. -/
def Access (ο σ ε κ α : Type) : Type := ο → σ → AccessOutcome ε κ α

namespace Access

variable {ο σ ε κ ν α β : Type}

instance : Monad (Access ο σ ε κ) where
  pure a := fun _ _ => .returns a
  bind x next := fun object s =>
    match x object s with
    | .returns a => next a object s
    | .throws e => .throws e
    | .undefined key => .undefined key

instance : LawfulMonad (Access ο σ ε κ) :=
  LawfulMonad.mk' _
    (fun x => by
      funext object s
      change (match x object s with | .returns a => _ | .throws e => _ | .undefined key => _) = _
      cases x object s <;> rfl)
    (fun _ _ => rfl)
    (fun x next last => by
      funext object s
      simp only [bind]
      cases x object s <;> rfl)

def subscript (find? : ο → κ → Option ν) (key : κ) : Access ο σ ε κ ν :=
  fun object _ =>
    match find? object key with
    | some value => .returns value
    | none => .undefined key

def ask (question : ο → σ → α) : Access ο σ ε κ α :=
  fun object s => .returns (question object s)

def fromExcept (result : Except ε α) : Access ο σ ε κ α :=
  fun _ _ =>
    match result with
    | .ok a => .returns a
    | .error e => .throws e

def catching (x : Access ο σ ε κ α) (handle : ε → α) : Access ο σ ε κ α :=
  fun object s =>
    match x object s with
    | .throws e => .returns (handle e)
    | outcome => outcome

/-- The program run on an object of its own. -/
def onObject (object : ο) (x : Access ο σ ε κ α) : Access ο σ ε κ α :=
  fun _ s => x object s

/-- No missing field is subscripted. -/
def Defined (x : Access ο σ ε κ α) (object : ο) (s : σ) : Prop :=
  ∀ key, x object s ≠ .undefined key

section

variable {object : ο} {s : σ}

@[simp] theorem defined_pure (a : α) :
    Defined (pure a : Access ο σ ε κ α) object s := by
  intro key hkey
  cases hkey

@[simp] theorem defined_ask (question : ο → σ → α) :
    Defined (ask question : Access ο σ ε κ α) object s := by
  intro key hkey
  cases hkey

@[simp] theorem defined_fromExcept (result : Except ε α) :
    Defined (fromExcept result : Access ο σ ε κ α) object s := by
  intro key hkey
  cases result <;> cases hkey

@[simp] theorem defined_subscript (find? : ο → κ → Option ν) (key : κ) :
    Defined (subscript find? key : Access ο σ ε κ ν) object s ↔
      (find? object key).isSome = true := by
  unfold Defined subscript
  cases find? object key with
  | none => simp
  | some value => simp

@[simp] theorem defined_onObject (other : ο) (x : Access ο σ ε κ α) :
    Defined (onObject other x) object s ↔ Defined x other s :=
  Iff.rfl

theorem Defined.catching {x : Access ο σ ε κ α} (hx : Defined x object s)
    (handle : ε → α) : Defined (catching x handle) object s := by
  intro key
  unfold Access.catching
  cases hresult : x object s with
  | returns a => simp
  | throws e => simp
  | undefined missing => exact absurd hresult (hx missing)

/-- A sequence is defined if its first part is, and its second part after every
result of the first. -/
theorem defined_bind_iff (x : Access ο σ ε κ α) (next : α → Access ο σ ε κ β) :
    Defined (x >>= next) object s ↔
      Defined x object s ∧ ∀ a, x object s = .returns a → Defined (next a) object s := by
  unfold Defined
  simp only [bind]
  cases x object s with
  | returns a => simp
  | throws e => simp
  | undefined missing => simp

theorem Defined.bind {x : Access ο σ ε κ α} {next : α → Access ο σ ε κ β}
    (hx : Defined x object s) (hnext : ∀ a, Defined (next a) object s) :
    Defined (x >>= next) object s :=
  (defined_bind_iff x next).mpr ⟨hx, fun a _ => hnext a⟩

@[simp] theorem defined_ask_bind (question : ο → σ → α) (next : α → Access ο σ ε κ β) :
    Defined (ask question >>= next) object s ↔
      Defined (next (question object s)) object s :=
  Iff.rfl

theorem defined_subscript_bind (find? : ο → κ → Option ν) (key : κ)
    (next : ν → Access ο σ ε κ β) :
    Defined (subscript find? key >>= next) object s ↔
      ∃ value, find? object key = some value ∧ Defined (next value) object s := by
  rw [defined_bind_iff, defined_subscript]
  unfold subscript
  cases find? object key with
  | none => simp
  | some value => simp

theorem defined_fromExcept_bind (result : Except ε α) (next : α → Access ο σ ε κ β) :
    Defined (fromExcept result >>= next) object s ↔
      ∀ a, result = .ok a → Defined (next a) object s := by
  rw [defined_bind_iff, and_iff_right (defined_fromExcept result)]
  unfold fromExcept
  cases result with
  | error e => simp
  | ok a => simp

end

end Access
