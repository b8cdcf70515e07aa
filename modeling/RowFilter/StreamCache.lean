import RowFilter.Config
import RowFilter.Instruction
import Std.Data.HashMap

/-!
# Stream cache

A bounded cache of compiled artifacts, looked up by the stream they were compiled from.

## Main definitions

- `CompileKey` — what a compilation depends on: the null check and the instructions up to the
  terminator.
- `StreamCache` — the cache, over any hash of keys and any kind of artifact.
- `StreamCache.find?`, `insert`, `findOrCompile` — its operations.

## Design notes

Entries are stored by hash, and each keeps the key it was stored for. A look-up that meets an
entry of another key is a miss, so a collision costs a compilation and never answers with
the wrong artifact; storing under an occupied hash replaces the entry. Hashes leave in the
order in which they were first stored. Replacing an entry does not change its place.
-/

namespace RowFilter

/-- The instructions that have an effect: those up to the first terminator, which is included. -/
def effective : List Instruction → List Instruction
  | [] => []
  | i :: rest => if i.opcode = .ret then [i] else i :: effective rest

/-- What a compilation depends on. Keys are compared bit for bit. -/
structure CompileKey where
  nullCheck : Bool
  stream : List Instruction
  deriving DecidableEq, Repr, Inhabited, Hashable

namespace CompileKey

/-- The key of a stream compiled with or without the null check. -/
def ofStream (stream : List Instruction) (nullCheck : Bool) : CompileKey :=
  ⟨nullCheck, effective stream⟩

/-- The default hash of keys. -/
def hash64 (key : CompileKey) : UInt64 :=
  hash key

end CompileKey

/-- An artifact and the key it was stored for. -/
structure StreamCache.Entry (α : Type) where
  key : CompileKey
  artifact : α
  deriving Repr, Inhabited

/-- A cache of artifacts `α` under hashes `κ`. -/
structure StreamCache (κ α : Type) [BEq κ] [Hashable κ] where
  /-- The hash of a key. -/
  hash : CompileKey → κ
  /-- The largest number of entries, at least one. -/
  capacity : Nat
  /-- The entries by hash. -/
  entries : Std.HashMap κ (StreamCache.Entry α)
  /-- The hashes of the entries, the oldest first. -/
  order : List κ

namespace StreamCache

variable {κ α : Type} [BEq κ] [Hashable κ]

/-- A cache without entries. A capacity of zero counts as one. -/
def new (hash : CompileKey → κ) (capacity : Nat) : StreamCache κ α :=
  ⟨hash, max capacity 1, ∅, []⟩

/-- A cache without entries, of the capacity a configuration gives. -/
def ofConfig (hash : CompileKey → κ) (config : Config) : StreamCache κ α :=
  new hash config.cacheCapacity

def size (cache : StreamCache κ α) : Nat :=
  cache.entries.size

def isEmpty (cache : StreamCache κ α) : Bool :=
  cache.entries.isEmpty

def findKey? (cache : StreamCache κ α) (key : CompileKey) : Option α :=
  match cache.entries[cache.hash key]? with
  | some entry => if entry.key = key then some entry.artifact else none
  | none => none

def find? (cache : StreamCache κ α) (stream : List Instruction) (nullCheck : Bool) : Option α :=
  cache.findKey? (.ofStream stream nullCheck)

/-- Drops the oldest entries until there is room for one more. -/
def makeRoom (capacity : Nat) :
    List κ → Std.HashMap κ (Entry α) → List κ × Std.HashMap κ (Entry α)
  | [], entries => ([], entries)
  | oldest :: rest, entries =>
    if entries.size < capacity then (oldest :: rest, entries)
    else makeRoom capacity rest (entries.erase oldest)

/-- Stores an artifact for a key. Only a hash that is new to the cache needs room. -/
def insertKey (cache : StreamCache κ α) (key : CompileKey) (artifact : α) : StreamCache κ α :=
  let hash := cache.hash key
  if cache.entries.contains hash then
    { cache with entries := cache.entries.insert hash ⟨key, artifact⟩ }
  else
    let (order, entries) := makeRoom cache.capacity cache.order cache.entries
    { cache with entries := entries.insert hash ⟨key, artifact⟩, order := order ++ [hash] }

def insert (cache : StreamCache κ α) (stream : List Instruction) (nullCheck : Bool)
    (artifact : α) : StreamCache κ α :=
  cache.insertKey (.ofStream stream nullCheck) artifact

/-- The artifact stored for a stream, or else the one it compiles to, which is then stored. A
failed compilation leaves the cache as it was. -/
def findOrCompile (compile : List Instruction → Config → Except CompileError α)
    (cache : StreamCache κ α) (stream : List Instruction) (config : Config) :
    Except CompileError α × StreamCache κ α :=
  match cache.find? stream config.nullCheck with
  | some artifact => (.ok artifact, cache)
  | none =>
    match compile stream config with
    | .ok artifact => (.ok artifact, cache.insert stream config.nullCheck artifact)
    | .error e => (.error e, cache)

end StreamCache

end RowFilter
