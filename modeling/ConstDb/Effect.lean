/-!
# Effects that may fail

Reading, writing and publishing act on a state (a sink, a source, a disk) and may fail on the
way. A failed action keeps the state it reached: bytes that a sink has accepted stay accepted.
-/

namespace ConstDb

/-- An action on a state `σ` that answers an `α` or fails with an `ε`, and leaves a state
either way. -/
abbrev Effect (ε σ α : Type) := EStateM ε σ α

namespace Effect

variable {ε δ σ τ α β : Type}

def ofExcept (answer : Except ε α) : Effect ε σ α := fun s =>
  match answer with
  | .ok a => .ok a s
  | .error e => .error e s

/-- Runs an action on a part of the state. `focus` splits a state into that part and the way
to put a new part back. -/
def within (focus : τ → σ × (σ → τ)) (action : Effect ε σ α) : Effect ε τ α := fun t =>
  let (s, restore) := focus t
  match action s with
  | .ok a s => .ok a (restore s)
  | .error e s => .error e (restore s)

def onSecond (action : Effect ε σ α) : Effect ε (τ × σ) α :=
  within (fun (t, s) => (s, fun s => (t, s))) action

/-- Runs `cleanup`, and drops its answer or failure, when `action` fails. -/
def cleaningUp (action : Effect ε σ α) (cleanup : Effect δ σ β) : Effect ε σ α := fun s =>
  match action s with
  | .ok a s => .ok a s
  | .error e s =>
    match cleanup s with
    | .ok _ s | .error _ s => .error e s

@[simp] theorem ofExcept_ok (a : α) (s : σ) : (ofExcept (.ok a) : Effect ε σ α) s = .ok a s := rfl

@[simp] theorem ofExcept_error (e : ε) (s : σ) :
    (ofExcept (.error e) : Effect ε σ α) s = .error e s := rfl

theorem bind_apply (action : Effect ε σ α) (next : α → Effect ε σ β) (s : σ) :
    (action >>= next) s = match action s with
      | .ok a s => next a s
      | .error e s => .error e s := rfl

end Effect

end ConstDb
