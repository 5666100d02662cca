/-!
Computations that report while they run and may fail. What was reported before a failure stays
reported.
-/

set_option autoImplicit false

namespace MarkdownDocx

/-- What a computation reports: messages for the user, and calls of the formula tools. -/
inductive Event where
  | info (message : String)
  | warning (message : String)
  | failure (message : String)
  | rendered (formula : String) (display : Bool)
  | transduced (markup : String)
  deriving DecidableEq, Repr

/-- The events in order, and the result. -/
structure Logged (ε α : Type) where
  events : List Event
  result : Except ε α

namespace Logged

variable {ε α β : Type}

def pure (a : α) : Logged ε α := ⟨[], .ok a⟩

def fail (e : ε) : Logged ε α := ⟨[], .error e⟩

def report (e : Event) : Logged ε Unit := ⟨[e], .ok ()⟩

def bind (x : Logged ε α) (f : α → Logged ε β) : Logged ε β :=
  match x.result with
  | .ok a => ⟨x.events ++ (f a).events, (f a).result⟩
  | .error e => ⟨x.events, .error e⟩

instance : Monad (Logged ε) where
  pure := Logged.pure
  bind := Logged.bind

/-- A result that reports nothing. -/
def ofExcept (r : Except ε α) : Logged ε α := ⟨[], r⟩

/-- The same computation with its error seen as part of a larger type of errors. -/
def mapError {ε' : Type} (f : ε → ε') (x : Logged ε α) : Logged ε' α :=
  ⟨x.events, x.result.mapError f⟩

@[simp] theorem pure_eq (a : α) : (Pure.pure a : Logged ε α) = ⟨[], .ok a⟩ := rfl

@[simp] theorem bind_eq (x : Logged ε α) (f : α → Logged ε β) : (x >>= f) = x.bind f := rfl

@[simp] theorem bind_ok (es : List Event) (a : α) (f : α → Logged ε β) :
    (⟨es, .ok a⟩ : Logged ε α).bind f = ⟨es ++ (f a).events, (f a).result⟩ := rfl

@[simp] theorem bind_error (es : List Event) (e : ε) (f : α → Logged ε β) :
    (⟨es, .error e⟩ : Logged ε α).bind f = ⟨es, .error e⟩ := rfl

@[simp] theorem mapError_ok {ε' : Type} (f : ε → ε') (es : List Event) (a : α) :
    (⟨es, .ok a⟩ : Logged ε α).mapError f = ⟨es, .ok a⟩ := rfl

@[simp] theorem mapError_error {ε' : Type} (f : ε → ε') (es : List Event) (e : ε) :
    (⟨es, .error e⟩ : Logged ε α).mapError f = ⟨es, .error (f e)⟩ := rfl

end Logged

end MarkdownDocx
