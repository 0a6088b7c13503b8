import FiniteStructures.Operation.Basic

/-!
Building operations from operations: identifying and permuting arguments, and putting operations
into the arguments of another one.
-/

namespace FiniteStructures

namespace Operation

variable {E : Type}

/-- Identifies and permutes arguments: `g(x₀, …) = f(x_{map[0]}, …, x_{map[k-1]})`, with `arity`
arguments. -/
def polymer (f : Operation E) (arity : Nat) (map : List Nat) : Outcome (Operation E) := do
  if map.length ≠ f.arity then Outcome.arity f.arity map.length
  if let some bad := map.find? (· ≥ arity) then
    Outcome.arity arity (← Count.add bad 1)
  let size ← f.size
  return ⟨← f.tensor.reshape (← graphShape size arity) (0 :: map.map (· + 1))⟩

variable {m : Type → Type} [BooleanDomain E m] [Monad m] [MonadLiftT Outcome m]

/-- All the operations have the given arity. -/
def requireArities (arity : Nat) (inner : List (Operation E)) : Outcome Unit :=
  inner.forM fun g => g.requireArity arity

/-- The superposition `f(g₁(x̄), …, gₖ(x̄))` of operations `gᵢ` of one arity. -/
def composeWith (f : Operation E) (inner : List (Operation E)) : m (Operation E) := do
  let k := f.arity
  if inner.length ≠ k then
    (Outcome.arity k inner.length : Outcome Unit)
  match inner with
  | [] => (Outcome.arity 1 0 : Outcome (Operation E))
  | first :: _ =>
    requireArities first.arity inner
    let vars ← Contraction.names (1 + k + first.arity)
    let head := vars.take 1
    let middle := (vars.drop 1).take k
    let args := vars.drop (1 + k)
    let entries := inner.zipWith (fun g y => (g.tensor, y :: args)) middle
    ofTensor (← Contraction.query SemiringOps.logical ((f.tensor, head ++ middle) :: entries)
      (head ++ args))

/-- Composition of operations with one argument: `(f∘g)(x) = f(g(x))`. -/
def compose (f g : Operation E) : m (Operation E) := do
  f.requireArity 1
  g.requireArity 1
  f.composeWith [g]

end Operation

end FiniteStructures
