import MeshExpr.Mesh.Error

namespace MeshExpr

/-!
# Collective programs

A rank cannot answer for the whole mesh by itself: now and then it contributes a list of floats and
goes on with what all ranks contributed. A collective program is such a computation with the
exchanges left open, so that one program can be run alone, against any partner, or on all ranks of
a group at once.

* `Collective` is the type of these programs and `Collective.gather` one exchange.
* `Collective.runAlone` runs a program as the only rank.
* `Collective.runWith` runs it against any partner and also keeps what was sent.
* `runWith_alone` : a partner that gives back what it gets is no partner at all.
-/

/-- What an exchange answers: the contributions of all ranks in the order of the ranks, or an error.
    This may be any error of a mesh, not only that of a failed exchange. -/
abbrev Answer := Except MeshError (List (List Float))

/-- A computation with exchanges left open. -/
inductive Collective (α : Type) where
  /-- The result. -/
  | done (result : α)
  /-- An exchange, and how to go on with its answer. -/
  | exchange (sent : List Float) (next : Answer → Collective α)

namespace Collective

variable {α β : Type}

/-- Goes on with the result of a program. -/
def andThen (c : Collective α) (f : α → Collective β) : Collective β :=
  match c with
  | done a => f a
  | exchange sent next => exchange sent fun answer => (next answer).andThen f

instance : Monad Collective where
  pure := done
  bind := andThen

@[simp] theorem pure_eq (a : α) : (pure a : Collective α) = done a := rfl
@[simp] theorem done_bind (a : α) (f : α → Collective β) : done a >>= f = f a := rfl
@[simp] theorem exchange_bind (sent : List Float) (next : Answer → Collective α)
    (f : α → Collective β) :
    exchange sent next >>= f = exchange sent fun answer => next answer >>= f := rfl

/-- One exchange. -/
def gather (sent : List Float) : Collective Answer := exchange sent done

/-- Runs a program as the only rank, which receives what it sends. -/
def runAlone : Collective α → α
  | done a => a
  | exchange sent next => (next (.ok [sent])).runAlone

/-- Runs a program against any partner, which may answer by the number of the exchange and by what
    was sent; also gives what was sent, in order. The first exchange has the number `start`. -/
def runWith (partner : Nat → List Float → Answer) (start : Nat) :
    Collective α → α × List (List Float)
  | done a => (a, [])
  | exchange sent next =>
    let (a, later) := (next (partner start sent)).runWith partner (start + 1)
    (a, sent :: later)

/-- A partner that gives back what it gets is no partner at all. -/
theorem runWith_alone (start : Nat) (c : Collective α) :
    (c.runWith (fun _ sent => .ok [sent]) start).1 = c.runAlone := by
  induction c generalizing start with
  | done a => rfl
  | exchange sent next ih => exact ih _ _

/-- The only rank runs one program after the other. -/
theorem runAlone_bind (c : Collective α) (f : α → Collective β) :
    (c >>= f).runAlone = (f c.runAlone).runAlone := by
  induction c with
  | done a => rfl
  | exchange sent next ih => exact ih _

instance : LawfulMonad Collective := LawfulMonad.mk' _
  (fun c => by
    induction c with
    | done a => rfl
    | exchange sent next ih => exact congrArg (exchange sent) (funext ih))
  (fun _ _ => rfl)
  (fun c f g => by
    induction c with
    | done a => rfl
    | exchange sent next ih => exact congrArg (exchange sent) (funext ih))

end Collective

end MeshExpr
