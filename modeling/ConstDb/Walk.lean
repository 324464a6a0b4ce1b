/-!
# Walks over items that may fail

A walk hands out items one at a time, each of them a value or a failure, and in the end hands
out nothing more. `Walk.items` collects what a walk still hands out.
-/

namespace ConstDb

/-- One step of a walk whose state is a `τ`: the next item, if there is one. -/
abbrev Walk (ε τ α : Type) := τ → Option (Except ε α) × τ

namespace Walk

variable {ε τ α : Type}

/-- The items that a walk hands out before it ends, up to `limit` of them. -/
def items (walk : Walk ε τ α) : (limit : Nat) → τ → List (Except ε α) × τ
  | 0, t => ([], t)
  | limit + 1, t =>
    match walk t with
    | (none, t) => ([], t)
    | (some item, t) =>
      let (rest, t) := items walk limit t
      (item :: rest, t)

end Walk

end ConstDb
