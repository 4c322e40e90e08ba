import Signet.Crypto.Provider

/-! Computations that may fail, together with what they did: the log events they emitted and
the questions they put to the provider, in order. -/

namespace Signet

namespace Log

inductive Level where
  | error
  | warn
  | info
  | debug
  | trace
  deriving DecidableEq

def Level.name : Level → String
  | .error => "ERROR"
  | .warn => "WARN"
  | .info => "INFO"
  | .debug => "DEBUG"
  | .trace => "TRACE"

inductive Value where
  | text (value : String)
  | count (value : Nat)
  | flag (value : Bool)
  deriving DecidableEq

structure Event where
  level : Level
  target : String
  message : String
  fields : List (String × Value)
  deriving DecidableEq

end Log

inductive Act where
  | event (event : Log.Event)
  | call (call : Provider.Call)

def Act.call? : Act → Option Provider.Call
  | .call c => some c
  | .event _ => none

structure Traced (ε α : Type) where
  acts : List Act
  result : Except ε α

namespace Traced

instance : Monad (Traced ε) where
  pure a := ⟨[], .ok a⟩
  bind x f :=
    match x.result with
    | .ok a => ⟨x.acts ++ (f a).acts, (f a).result⟩
    | .error e => ⟨x.acts, .error e⟩

def lift (result : Except ε α) : Traced ε α := ⟨[], result⟩

def fail (e : ε) : Traced ε α := ⟨[], .error e⟩

def perform (act : Act) : Traced ε Unit := ⟨[act], .ok ()⟩

def emit (event : Log.Event) : Traced ε Unit := perform (.event event)

def mapError (f : ε → δ) (x : Traced ε α) : Traced δ α := ⟨x.acts, x.result.mapError f⟩

/-- The questions put to the provider, in order. -/
def calls (x : Traced ε α) : List Provider.Call := x.acts.filterMap Act.call?

variable {ε δ α β : Type}

theorem bind_ok {x : Traced ε α} {a : α} (h : x.result = .ok a) (f : α → Traced ε β) :
    x >>= f = ⟨x.acts ++ (f a).acts, (f a).result⟩ := by
  simp only [bind, h]

theorem bind_error {x : Traced ε α} {e : ε} (h : x.result = .error e) (f : α → Traced ε β) :
    x >>= f = ⟨x.acts, .error e⟩ := by
  simp only [bind, h]

@[simp] theorem lift_ok_bind (a : α) (f : α → Traced ε β) : lift (.ok a) >>= f = f a := rfl

@[simp] theorem lift_error_bind (e : ε) (f : α → Traced ε β) : lift (.error e) >>= f = fail e := rfl

@[simp] theorem result_fail (e : ε) : (fail e : Traced ε α).result = .error e := rfl

@[simp] theorem result_lift (r : Except ε α) : (lift r).result = r := rfl

@[simp] theorem calls_lift (r : Except ε α) : (lift r).calls = [] := rfl

@[simp] theorem result_mapError (f : ε → δ) (x : Traced ε α) :
    (x.mapError f).result = x.result.mapError f := rfl

@[simp] theorem calls_mapError (f : ε → δ) (x : Traced ε α) : (x.mapError f).calls = x.calls := rfl

theorem calls_bind_ok {x : Traced ε α} {a : α} (h : x.result = .ok a) (f : α → Traced ε β) :
    (x >>= f).calls = x.calls ++ (f a).calls := by
  rw [bind_ok h]
  exact List.filterMap_append

theorem result_bind_ok {x : Traced ε α} {a : α} (h : x.result = .ok a) (f : α → Traced ε β) :
    (x >>= f).result = (f a).result := by
  rw [bind_ok h]

theorem calls_bind_error {x : Traced ε α} {e : ε} (h : x.result = .error e)
    (f : α → Traced ε β) : (x >>= f).calls = x.calls := by
  rw [bind_error h]
  rfl

theorem result_bind_error {x : Traced ε α} {e : ε} (h : x.result = .error e)
    (f : α → Traced ε β) : (x >>= f).result = .error e := by
  rw [bind_error h]

theorem result_bind (x : Traced ε α) (f : α → Traced ε β) :
    (x >>= f).result = x.result >>= fun a => (f a).result := by
  cases h : x.result with
  | ok a => exact result_bind_ok h f
  | error e => exact result_bind_error h f

/-- What asks nothing and goes on with something that asks nothing, asks nothing. -/
theorem calls_bind {x : Traced ε α} {f : α → Traced ε β} (hx : x.calls = [])
    (hf : ∀ a, (f a).calls = []) : (x >>= f).calls = [] := by
  cases h : x.result with
  | ok a => rw [calls_bind_ok h, hx, hf a, List.append_nil]
  | error e => rw [calls_bind_error h, hx]

end Traced

end Signet
