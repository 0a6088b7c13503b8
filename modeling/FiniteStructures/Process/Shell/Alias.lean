import FiniteStructures.Process.Shell.Option

/-!
The commands about aliases.
-/

namespace FiniteStructures

namespace Shell

open Script

/-- Complains that a name is no alias. -/
def unknownAlias (command : String) (name : Bytes) : Action Unit :=
  complainLine (command.toList ++ ": ".toList ++ name ++ " not found".toList)

/-- Makes an alias, or shows one if the text has no equals sign after its first character; tells
whether that was possible. -/
def aliasOperand (operand : Bytes) : Action (Bytes × Bool) := do
  let name := operand.take 1 ++ operand.tail.takeWhile (· != '=')
  match operand.drop name.length with
  | _ :: text =>
    modify fun s => { s with aliases := s.aliases.set name text }
    return ([], true)
  | [] =>
    match (← get).aliases.find? operand with
    | some a => return (a.render, true)
    | none =>
      unknownAlias "alias" operand
      return ([], false)

/-- The command `alias`. -/
def aliasCommand (args : List Bytes) : Action Nat := do
  if args.isEmpty then return ← print ((← get).aliases.listed.flatMap (·.render))
  let results ← args.mapM aliasOperand
  let failure ← print (results.flatMap (·.1))
  return max failure (if results.all (·.2) then 0 else 1)

/-- The command `unalias`. -/
def unaliasCommand (args : List Bytes) : Action Nat := do
  let (options, names) ← commandOptions "a" args
  if !options.isEmpty then
    modify fun s => { s with aliases := s.aliases.remove fun _ => true }
    return 0
  let found ← names.mapM fun name => do
    if ((← get).aliases.find? name).isNone then
      unknownAlias "unalias" name
      return false
    modify fun s => { s with aliases := s.aliases.remove (· = name) }
    return true
  return if found.all id then 0 else 1

end Shell

end FiniteStructures
