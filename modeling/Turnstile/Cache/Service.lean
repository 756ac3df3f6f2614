import Turnstile.Cache.Entries
import Turnstile.Cache.Lookups
import Turnstile.Text.Utf8

namespace Turnstile

/-- A cache: its store, the lifetime of an entry that is given none, and where in the state the
lookups are counted. -/
structure Cache (σ : Type) where
  store : EntryStore σ
  defaultTtl : Nat
  lookups : Part σ Lookups

namespace Cache

/-- Five minutes. -/
def standardTtl : Nat := 300 * Clock.second

variable {σ α : Type}

def decode (read : List UInt8 → Option α) :
    Option (List UInt8) → Except CacheError (Option α)
  | none => .ok none
  | some s =>
    match read s with
    | some a => .ok (some a)
    | none => .error .serialization

/-- Looks a key up without counting it. -/
def peek (c : Cache σ) (read : List UInt8 → Option α) (key : String) :
    Run σ (Except CacheError (Option α)) := do
  match ← c.store.get key with
  | .error e => return .error e
  | .ok entry => return decode read entry

/-- Looks a key up. The lookup counts as a hit if there is an entry, whatever its form. -/
def get (c : Cache σ) (read : List UInt8 → Option α) (key : String) :
    Run σ (Except CacheError (Option α)) := do
  match ← c.store.get key with
  | .error e => return .error e
  | .ok entry =>
    c.lookups.run (Run.modify (·.record key entry.isSome))
    return decode read entry

/-- Stores a value, if it has a JSON text, for a time or for the default one. -/
def set (c : Cache σ) (key : String) (value : Option Json.Value) (ttl : Option Nat) :
    Run σ (Except CacheError Unit) :=
  match value with
  | none => pure (.error .serialization)
  | some v => c.store.set key (Utf8.encodeChars v.chars) (ttl.getD c.defaultTtl)

/-- The value under a key, or else the value that is made then and stored; whether it was made. A
store that fails does not show. -/
def getOrSet (c : Cache σ) (read : List UInt8 → Option α) (write : α → Option Json.Value)
    (key : String) (make : Run σ α) (ttl : Option Nat) : Run σ (α × Bool) := do
  match ← c.get read key with
  | .ok (some a) => return (a, false)
  | _ =>
    let a ← make
    let _ ← c.set key (write a) ttl
    return (a, true)

def delete (c : Cache σ) (key : String) : Run σ (Except CacheError Bool) := c.store.delete key

/-- Deletes the keys in order, up to the first failure; how many had an entry. -/
def deleteMany (c : Cache σ) : List String → Run σ (Except CacheError Nat)
  | [] => pure (.ok 0)
  | key :: rest => do
    match ← c.store.delete key with
    | .error e => return .error e
    | .ok removed =>
      match ← c.deleteMany rest with
      | .error e => return .error e
      | .ok n => return .ok (n + removed.toNat)

/-- Deletes all keys that start with a text; how many, or none if the store fails. -/
def deletePrefix (c : Cache σ) (start : String) : Run σ Nat := do
  match ← c.store.keys with
  | .error _ => return 0
  | .ok keys =>
    match ← c.deleteMany (keys.filter fun k => start.toList.isPrefixOf k.toList) with
    | .error _ => return 0
    | .ok n => return n

def clear (c : Cache σ) : Run σ (Except CacheError Unit) := c.store.clear

def stats (c : Cache σ) (key : String) : Run σ LookupCount := do
  return (c.lookups.get (← Run.state)).count key

def allStats (c : Cache σ) : Run σ Lookups := do
  return c.lookups.get (← Run.state)

def resetStats (c : Cache σ) : Run σ Unit := c.lookups.run (Run.modify fun _ => Lookups.empty)

end Cache

end Turnstile
