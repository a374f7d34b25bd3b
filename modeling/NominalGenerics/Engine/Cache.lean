import NominalGenerics.Ty.Identity

/-!
# The locator's memory

A bounded memory of look-ups, keyed by the declaration and the receiver as nodes. Entries are kept
from the most to the least recently used, and the least recently used one makes room. Hits and
misses are counted since the memory was last cleared.
-/

namespace NominalGenerics

structure CacheStats where
  entries : Nat
  hits : Nat
  misses : Nat
deriving DecidableEq, Repr

/-- A look-up: for which declaration, seen from which receiver. -/
abbrev LocatorKey := DeclId × Ty

/-- A bounded memory of look-ups, most recently used first. Nothing found is remembered too. -/
structure Cache where
  capacity : Nat
  entries : List (LocatorKey × Option Ty)
  hits : Nat
  misses : Nat

namespace Cache

def empty (capacity : Nat) : Cache := ⟨capacity, [], 0, 0⟩

def find? (c : Cache) (key : LocatorKey) : Option (Option Ty) :=
  (c.entries.find? fun e => e.1 = key).map Prod.snd

/-- Put an entry in front, in place of the one it had, and drop what no longer fits. -/
def use (c : Cache) (key : LocatorKey) (found : Option Ty) : Cache :=
  { c with entries := ((key, found) :: c.entries.filter fun e => e.1 ≠ key).take c.capacity }

/-- Answer from memory: a hit is moved to the front, a miss is only counted. -/
def get (c : Cache) (key : LocatorKey) : Option (Option Ty) × Cache :=
  match c.find? key with
  | some found => (some found, { c.use key found with hits := c.hits + 1 })
  | none => (none, { c with misses := c.misses + 1 })

def clear (c : Cache) : Cache := empty c.capacity

def stats (c : Cache) : CacheStats := ⟨c.entries.length, c.hits, c.misses⟩

end Cache

end NominalGenerics
