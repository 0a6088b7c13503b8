import FiniteStructures.Process.Bytes

/-!
Aliases: names that stand for texts at the beginning of commands.  While the text of an alias is
being read, its name stands for itself, so that reading comes to an end; an alias that is taken
away meanwhile stays until then.
-/

namespace FiniteStructures

namespace Script

/-- A name that stands for a text. -/
structure Alias where
  name : Bytes
  text : Bytes
  /-- Whether its text is being read. -/
  inUse : Bool
  /-- Whether it was taken away while its text was being read. -/
  removed : Bool
deriving DecidableEq, Repr

/-- Aliases in the order in which they were made. -/
abbrev Aliases := List Alias

namespace Aliases

def find? (aliases : Aliases) (name : Bytes) : Option Alias :=
  List.find? (fun a => a.name = name) aliases

/-- Changes the alias of a name, if there is one. -/
def update (aliases : Aliases) (name : Bytes) (change : Alias → Alias) : Aliases :=
  aliases.map fun a => if a.name = name then change a else a

/-- Makes a name stand for a text. -/
def set (aliases : Aliases) (name text : Bytes) : Aliases :=
  if (aliases.find? name).isSome then
    aliases.update name fun a => { a with text, removed := false }
  else aliases ++ [⟨name, text, false, false⟩]

/-- Takes aliases away, those in use later. -/
def remove (aliases : Aliases) (isMeant : Bytes → Bool) : Aliases :=
  aliases.filterMap fun a =>
    if !isMeant a.name then some a
    else if a.inUse then some { a with removed := true }
    else none

/-- The text of an alias begins. -/
def enter (aliases : Aliases) (name : Bytes) : Aliases :=
  aliases.update name fun a => { a with inUse := true }

/-- The texts of aliases have ended. -/
def leave (aliases : Aliases) (hasEnded : Bytes → Bool) : Aliases :=
  aliases.filterMap fun a =>
    if !hasEnded a.name then some a
    else if a.removed then none
    else some { a with inUse := false }

/-- The place of a name in listings. -/
def rank (name : Bytes) : Nat :=
  (16 * (name.headD (Char.ofNat 0)).toNat + name.foldl (fun n c => n + c.toNat) 0) % 39

/-- The aliases as they are listed. -/
def listed (aliases : Aliases) : Aliases :=
  aliases.mergeSort fun a b => rank a.name ≤ rank b.name

end Aliases

/-- An alias as a text that makes it. -/
def Alias.render (a : Alias) : Bytes := a.name ++ '=' :: Bytes.quote a.text ++ ['\n']

end Script

end FiniteStructures
