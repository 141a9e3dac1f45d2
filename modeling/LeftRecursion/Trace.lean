import LeftRecursion.Text.Quoted

/-!
# Traced computations

A computation on grammars may fail, and it reports events on the way. What it reported before it
failed is kept. The result and the events of a sequence can be seen apart.
-/

namespace LeftRecursion

inductive Failure where
  /-- Line `number`, counted from one, is no production. It holds `content` between its blanks. -/
  | malformedLine (number : Nat) (content : String)
  /-- A helper is needed and every name that one may have is taken. -/
  | namesExhausted
  deriving DecidableEq

/-- The wording, which stays on one line whatever the faulty line holds. -/
def Failure.message : Failure → String
  | malformedLine number content =>
    "Line " ++ toString number ++ ": invalid production format: " ++
      String.ofList (Text.quoted content.toList)
  | namesExhausted => "no fresh non-terminal left to allocate"

inductive Level where
  | debug
  | warn
  deriving DecidableEq

inductive Event where
  /-- On line `line`, counted from one, the arrow has the characters `name :: rest` before it, of
  which only the first is kept. -/
  | longLeftSide (line : Nat) (name : Char) (rest : List Char)
  /-- In `count` alternatives of `a` a leading `b` has given way to the alternatives of `b`. -/
  | substituted (a b : Char) (count : Nat)
  /-- The alternatives of `a`, `recursive` of which started with `a` and `others` did not, have been
  shared out between `a` and its new helper. -/
  | split (a helper : Char) (recursive others : Nat)
  /-- The split of `a` has left it without alternatives. -/
  | emptied (a : Char)
  deriving DecidableEq

namespace Event

def level : Event → Level
  | longLeftSide .. => .warn
  | substituted .. => .debug
  | split .. => .debug
  | emptied .. => .warn

def message : Event → String
  | longLeftSide _ name _ =>
    "left side truncated to " ++ String.ofList (Text.quotedChar name)
  | substituted .. => "substituted leading non-terminal"
  | split .. => "split immediate left recursion"
  | emptied .. => "non-terminal has no alternative left after removing its left recursion"

end Event

section Success

variable {ε α β : Type} {x : Except ε α} {b : β}

/-- A sequence that succeeds succeeds at its first step, and goes on from there. -/
theorem exists_of_bind_eq_ok {f : α → Except ε β} (done : x >>= f = .ok b) :
    ∃ a, x = .ok a ∧ f a = .ok b := by
  cases x with
  | error => cases done
  | ok a => exact ⟨a, rfl, done⟩

theorem exists_of_map_eq_ok {f : α → β} (done : x.map f = .ok b) : ∃ a, x = .ok a ∧ f a = b := by
  cases x with
  | error => cases done
  | ok a => exact ⟨a, rfl, Except.ok.inj done⟩

end Success

structure Traced (α : Type) where
  events : List Event
  result : Except Failure α

namespace Traced

variable {α β : Type}

protected def pure (a : α) : Traced α :=
  ⟨[], .ok a⟩

protected def bind (x : Traced α) (f : α → Traced β) : Traced β :=
  match x.result with
  | .ok a =>
    let y := f a
    ⟨x.events ++ y.events, y.result⟩
  | .error e => ⟨x.events, .error e⟩

instance : Monad Traced where
  pure := Traced.pure
  bind := Traced.bind

def tell (e : Event) : Traced Unit :=
  ⟨[e], .ok ()⟩

def fail (e : Failure) : Traced α :=
  ⟨[], .error e⟩

@[ext] theorem ext {x y : Traced α} (events : x.events = y.events) (result : x.result = y.result) :
    x = y := by
  cases x; cases y; simp_all

@[simp] theorem result_pure (a : α) : (pure a : Traced α).result = .ok a := rfl

@[simp] theorem events_pure (a : α) : (pure a : Traced α).events = [] := rfl

@[simp] theorem result_tell (e : Event) : (tell e).result = .ok () := rfl

@[simp] theorem events_tell (e : Event) : (tell e).events = [e] := rfl

@[simp] theorem result_fail (e : Failure) : (fail e : Traced α).result = .error e := rfl

@[simp] theorem events_fail (e : Failure) : (fail e : Traced α).events = [] := rfl

theorem result_bind (x : Traced α) (f : α → Traced β) :
    (x >>= f).result = x.result >>= fun a => (f a).result := by
  show (Traced.bind x f).result = _
  unfold Traced.bind
  cases x.result <;> rfl

theorem events_bind_of_ok {x : Traced α} {a : α} (h : x.result = .ok a) (f : α → Traced β) :
    (x >>= f).events = x.events ++ (f a).events := by
  show (Traced.bind x f).events = _
  simp [Traced.bind, h]

theorem events_bind_of_error {x : Traced α} {e : Failure} (h : x.result = .error e)
    (f : α → Traced β) : (x >>= f).events = x.events := by
  show (Traced.bind x f).events = _
  simp [Traced.bind, h]

@[simp] theorem result_tell_bind (e : Event) (f : Unit → Traced β) :
    (tell e >>= f).result = (f ()).result := rfl

@[simp] theorem events_tell_bind (e : Event) (f : Unit → Traced β) :
    (tell e >>= f).events = e :: (f ()).events := rfl

instance : LawfulMonad Traced := LawfulMonad.mk' Traced
  (fun x => by
    apply Traced.ext <;> cases h : x.result <;> simp [Functor.map, Traced.bind, Traced.pure, h])
  (fun _ _ => rfl)
  (fun x f g => by
    cases h : x.result with
    | ok a => cases h' : (f a).result <;> simp [Bind.bind, Traced.bind, h, h']
    | error e => simp [Bind.bind, Traced.bind, h])

end Traced

end LeftRecursion
