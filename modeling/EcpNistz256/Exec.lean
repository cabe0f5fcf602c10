import EcpNistz256.Limbs

/-!
# Runs: where a call ends and what it did on the way

A call of this file either returns or jumps to an error exit, and on the way it calls the
primitives, tests conditions and goes round loops. A `Run` records both: the outcome, and the
list of `Event`s that an observer of timing and memory traffic sees. An event carries the
arguments such an observer sees (which table is handed to a select routine) and, as separate
fields, the secret select index and copy flag, which `Event.pub` erases.
-/

set_option autoImplicit false

namespace EcpNistz256.Exec

open Limbs

inductive Event
  | malloc (ok : Bool)
  | reduce (taken : Bool)
  | ctxGet (ok : Bool)
  | nnmod (ok : Bool)
  | limb
  | zeroByte
  | toFieldElem (ok : Bool)
  | pointDouble
  | pointAdd
  | pointAddAffine
  | selectW5 (table : Nat) (index : BitVec 32)
  | selectW7 (row : Nat) (index : BitVec 32)
  | neg
  | copyConditional (move : BnUlong)
  | branch (taken : Bool)
  deriving DecidableEq, Repr

/-- What an observer who does not see secret data sees of an event. -/
def Event.pub : Event → Event
  | .selectW5 t _ => .selectW5 t 0
  | .selectW7 r _ => .selectW7 r 0
  | .copyConditional _ => .copyConditional 0
  | e => e

structure Run (α : Type) where
  result : Except Err α
  trace : List Event

instance : Monad Run where
  pure a := ⟨.ok a, []⟩
  bind x f := match x.result with
    | .ok a => ⟨(f a).result, x.trace ++ (f a).trace⟩
    | .error e => ⟨.error e, x.trace⟩

def emit (e : Event) : Run Unit := ⟨.ok (), [e]⟩

def fail {α : Type} (e : Err) : Run α := ⟨.error e, []⟩

/-- A fallible step of the C code: `none` jumps to the error exit with `e`. -/
def ofOption {α : Type} (e : Err) : Option α → Run α
  | some a => pure a
  | none => fail e

namespace Run

variable {α β : Type}

@[simp] theorem result_pure (a : α) : (pure a : Run α).result = .ok a := rfl
@[simp] theorem trace_pure (a : α) : (pure a : Run α).trace = [] := rfl
@[simp] theorem result_emit (e : Event) : (emit e).result = .ok () := rfl
@[simp] theorem trace_emit (e : Event) : (emit e).trace = [e] := rfl
@[simp] theorem result_fail (e : Err) : (fail e : Run α).result = .error e := rfl
@[simp] theorem trace_fail (e : Err) : (fail e : Run α).trace = [] := rfl

theorem bind_of_ok {x : Run α} {a : α} (h : x.result = .ok a) (f : α → Run β) :
    x >>= f = ⟨(f a).result, x.trace ++ (f a).trace⟩ := by
  show (match x.result with
    | .ok a => (⟨(f a).result, x.trace ++ (f a).trace⟩ : Run β)
    | .error e => ⟨.error e, x.trace⟩) = _
  rw [h]

theorem bind_of_error {x : Run α} {e : Err} (h : x.result = .error e) (f : α → Run β) :
    x >>= f = ⟨.error e, x.trace⟩ := by
  show (match x.result with
    | .ok a => (⟨(f a).result, x.trace ++ (f a).trace⟩ : Run β)
    | .error e => ⟨.error e, x.trace⟩) = _
  rw [h]

theorem result_bind_of_ok {x : Run α} {a : α} (h : x.result = .ok a) (f : α → Run β) :
    (x >>= f).result = (f a).result := by
  rw [bind_of_ok h]

@[simp] theorem pure_bind (a : α) (f : α → Run β) : pure a >>= f = f a := by
  rw [bind_of_ok (result_pure a)]; rfl

@[simp] theorem emit_bind (e : Event) (f : Unit → Run β) :
    emit e >>= f = ⟨(f ()).result, e :: (f ()).trace⟩ := bind_of_ok rfl f

@[simp] theorem fail_bind (e : Err) (f : α → Run β) : (fail e : Run α) >>= f = fail e :=
  bind_of_error rfl f

theorem result_bind_eq_ok {x : Run α} {f : α → Run β} {b : β} :
    (x >>= f).result = .ok b ↔ ∃ a, x.result = .ok a ∧ (f a).result = .ok b := by
  cases h : x.result with
  | ok a => simp [bind_of_ok h]
  | error e => simp [bind_of_error h]

theorem result_bind_eq_error {x : Run α} {f : α → Run β} {e : Err} :
    (x >>= f).result = .error e ↔
      x.result = .error e ∨ ∃ a, x.result = .ok a ∧ (f a).result = .error e := by
  cases h : x.result with
  | ok a => simp [bind_of_ok h]
  | error e' => simp [bind_of_error h]

theorem trace_bind_of_ok {x : Run α} {a : α} (h : x.result = .ok a) (f : α → Run β) :
    (x >>= f).trace = x.trace ++ (f a).trace := by
  rw [bind_of_ok h]

theorem trace_prefix_bind (x : Run α) (f : α → Run β) : x.trace <+: (x >>= f).trace := by
  cases h : x.result with
  | ok a => exact ⟨(f a).trace, (trace_bind_of_ok h f).symm⟩
  | error e => exact ⟨[], by rw [List.append_nil, bind_of_error h]⟩

theorem trace_bind_eq_nil {x : Run α} {f : α → Run β} (hx : x.trace = [])
    (hf : ∀ a, (f a).trace = []) : (x >>= f).trace = [] := by
  cases h : x.result with
  | ok a => rw [trace_bind_of_ok h, hx, hf]; rfl
  | error e => rw [bind_of_error h]; exact hx

@[simp] theorem ofOption_some (e : Err) (a : α) : ofOption e (some a) = pure a := rfl
@[simp] theorem ofOption_none (e : Err) : (ofOption e none : Run α) = fail e := rfl

end Run

end EcpNistz256.Exec
