import FiniteStructures.Contraction.Semiring
import FiniteStructures.Tensor.Axes

/-!
Contraction of tensors with named axes.  Entries are tensors whose axes are named by variables.
A query names the variables of its result: all entries are multiplied over their common variables
and every other variable is summed out,

    query [(a, "ij"), (b, "jk")] "ik"  =  ∑ j, a[i, j] · b[j, k]

The full product is never built.  Two steps alternate until one entry is left: `reduce` sums out
of each entry the variables that nothing else mentions, `join` multiplies the first entry with
the next one that shares a variable.
-/

namespace FiniteStructures

/-- A tensor with a variable for each axis. -/
structure Entry (E : Type) where
  tensor : Tensor E
  vars : List Char
deriving DecidableEq

/-- The members of a list at their first occurrence. -/
def distinct : List Char → List Char
  | [] => []
  | v :: vs => v :: (distinct vs).filter (· ≠ v)

/-- Position of each variable in a list that has them all. -/
def positions (vars target : List Char) : List Nat := vars.map target.idxOf

namespace Contraction

/-- Sizes of the variables, in the order in which they were bound. -/
abbrev Sizes := List (Char × Nat)

/-- Binds each variable to the size of its axis, unless it already has another size.  The variables
before one that has stay bound. -/
def bind : List (Char × Nat) → Sizes → Except Error Unit × Sizes
  | [], sizes => (.ok (), sizes)
  | (v, d) :: rest, sizes =>
    match sizes.lookup v with
    | none => bind rest (sizes ++ [(v, d)])
    | some first =>
      if first = d then bind rest sizes else (.error (.sizeConflict v first d), sizes)

/-- Axis sizes of a list of bound variables. -/
def shapeOf (sizes : Sizes) (vars : List Char) : List Nat :=
  vars.map fun v => (sizes.lookup v).getD 0

/-- The result variables must be distinct and bound. -/
def checkResult (sizes : Sizes) (result : List Char) : (seen rest : List Char) → Except Error Unit
  | _, [] => .ok ()
  | seen, v :: rest =>
    if v ∈ seen then .error (.arityMismatch (distinct result).length result.length)
    else if (sizes.lookup v).isNone then .error (.unboundVariable v)
    else checkResult sizes result (v :: seen) rest

/-- A variable stays while another entry or the result mentions it. -/
def stays {E : Type} (entries : List (Entry E)) (result : List Char) (v : Char) : Bool :=
  entries.countP (fun e => e.vars.contains v) > 1 || result.contains v

/-- The first entry that shares a variable with `vars`, or else the first one, and the others. -/
def partner {E : Type} (vars : List Char) (first : Entry E) (rest : List (Entry E)) :
    Entry E × List (Entry E) :=
  let entries := first :: rest
  let i := (entries.findIdx? fun e => e.vars.any vars.contains).getD 0
  (entries.getD i first, entries.eraseIdx i)

variable {E : Type} {m : Type → Type} [Monad m] [MonadLiftT Outcome m]

/-- Selects the diagonal of each repeated variable and sums out the variables that do not
stay. -/
def reduce (ops : SemiringOps E m) (sizes : Sizes) (stay : Char → Bool) (e : Entry E) :
    m (Entry E) := do
  let vars := distinct e.vars
  let summed := vars.filter fun v => !stay v
  let kept := vars.filter stay
  let target := summed ++ kept
  let tensor ←
    if target = e.vars then pure e.tensor
    else monadLift (e.tensor.reshape (shapeOf sizes target) (positions e.vars target))
  if summed.isEmpty then return ⟨tensor, kept⟩
  return ⟨← tensor.foldM summed.length ops.sum, kept⟩

/-- The product of two entries over the union of their variables. -/
def join (ops : SemiringOps E m) (sizes : Sizes) (a b : Entry E) : m (Entry E) := do
  let vars := a.vars ++ (distinct b.vars).filter fun v => !a.vars.contains v
  let shape := shapeOf sizes vars
  let left ← a.tensor.reshape shape (positions a.vars vars)
  let right ← b.tensor.reshape shape (positions b.vars vars)
  return ⟨← left.map2M ops.mul right, vars⟩

/-- Reduces and joins until one entry is left; `n` is at least the number of entries. -/
def collapse (ops : SemiringOps E m) (sizes : Sizes) (result : List Char) :
    (n : Nat) → List (Entry E) → m (Entry E)
  | 0, _ => (Outcome.fail (.violation .lostEntries) : Outcome (Entry E))
  | n + 1, entries => do
    let ⟨reduced, _⟩ ← traverse (reduce ops sizes (stays entries result)) entries
    match reduced with
    | [] => (Outcome.fail (.violation .lostEntries) : Outcome (Entry E))
    | [last] => return last
    | first :: second :: rest =>
      let (other, others) := partner first.vars second rest
      let joined ← join ops sizes first other
      collapse ops sizes result n (joined :: others)

/-- The position of each variable of the last entry in the result. -/
def places (result vars : List Char) : Outcome (List Nat) :=
  vars.mapM fun v =>
    match result.idxOf? v with
    | some axis => .ok axis
    | none => .fail (.violation (.survivor v result))

/-- Each variable at its position, blanks elsewhere. -/
def arranged (count : Nat) (vars : List Char) (axes : List Nat) : List Char :=
  (vars.zip axes).foldl (fun out p => out.set p.2 p.1) (List.replicate count ' ')

/-- The tensor of the last entry with its axes in the order of the result, of which it must have the
variables. -/
def deliver (result : List Char) (last : Entry E) : Outcome (Tensor E) := do
  if last.vars.length ≠ result.length then Outcome.fail (.violation (.leftOver last.vars result))
  let axes ← places result last.vars
  let vars := arranged result.length last.vars axes
  if vars ≠ result then Outcome.fail (.violation (.misplaced vars result))
  last.tensor.permute axes

/-- The contraction of bound entries to the given variables; no entries make the product one. -/
def evaluate (ops : SemiringOps E m) (sizes : Sizes) (entries : List (Entry E))
    (result : List Char) : m (Tensor E) := do
  let entries := if entries.isEmpty then [⟨Tensor.scalar ops.one, []⟩] else entries
  let last ← collapse ops sizes result entries.length entries
  deliver result last

end Contraction

/-! ## The contraction as an object -/

/-- Entries waiting for a query.  After an error the contraction refuses every call until it is
cleared. -/
structure Contraction (E : Type) where
  entries : List (Entry E)
  sizes : Contraction.Sizes
  poisoned : Bool
deriving DecidableEq

namespace Contraction

/-- No entries. -/
def empty {E : Type} : Contraction E := ⟨[], [], false⟩

/-- Drops all entries and accepts calls again. -/
def clear {E : Type} (_ : Contraction E) : Contraction E := empty

/-- Binds the variables of an entry. -/
def bindEntry {E : Type} (sizes : Sizes) (t : Tensor E) (vars : List Char) :
    Except Error Unit × Sizes :=
  if vars.length ≠ t.order then (.error (.arityMismatch t.order vars.length), sizes)
  else bind (vars.zip t.shape) sizes

/-- Adds an entry with a variable for each axis. -/
def add {E : Type} (c : Contraction E) (t : Tensor E) (vars : List Char) :
    Except Error Unit × Contraction E :=
  if c.poisoned then (.error (.spent .contraction), c)
  else
    match bindEntry c.sizes t vars with
    | (.ok (), sizes) => (.ok (), { c with entries := c.entries ++ [⟨t, vars⟩], sizes })
    | (.error e, sizes) => (.error e, { c with sizes, poisoned := true })

variable {E : Type} {m : Type → Type} [Monad m] [MonadLiftT Outcome m]

/-- Contracts all entries to the given variables, which empties the contraction. -/
def get (ops : SemiringOps E m) (c : Contraction E) (result : List Char) :
    m (Except Error (Tensor E) × Contraction E) := do
  if c.poisoned then return (.error (.spent .contraction), c)
  match checkResult c.sizes result [] result with
  | .error e => return (.error e, { c with entries := [], poisoned := true })
  | .ok () => return (.ok (← evaluate ops c.sizes c.entries result), empty)

/-- A contraction with all entries given at once. -/
def query (ops : SemiringOps E m) (entries : List (Tensor E × List Char)) (result : List Char) :
    m (Tensor E) := do
  let c ← entries.foldlM (fun c (t, vars) => do
    let (outcome, c) := Contraction.add c t vars
    monadLift (outcome.mapError Fault.error)
    return c) empty
  let (outcome, _) ← c.get ops result
  monadLift (outcome.mapError Fault.error)

/-- Names for the variables of generated contractions. -/
def namePool : List Char := "abcdefghijklmnopqrstuvwxyzABCDEFGHIJKLMNOPQRSTUVWXYZ".toList

/-- As many distinct variables, if the pool has them. -/
def names (count : Nat) : Outcome (List Char) :=
  if count > namePool.length then .fail (.unsupported (.contraction count namePool.length))
  else .ok (namePool.take count)

end Contraction

end FiniteStructures
