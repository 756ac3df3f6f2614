import Turnstile.Keyed
import Turnstile.Run

/-!
Entries of bytes that expire. An expired entry is never seen again; it is dropped when it is looked
at or when the store is cleaned up.
-/

namespace Turnstile

structure Entry where
  value : List UInt8
  expires : Nat
  deriving DecidableEq, Repr

def Entry.isExpired (e : Entry) (now : Nat) : Bool := e.expires ≤ now

/-- Entries by key, expired ones among them until they are dropped. -/
structure Entries where
  table : List (String × Entry)
  deriving DecidableEq, Repr

namespace Entries

def empty : Entries := ⟨[]⟩

def size (es : Entries) : Nat := es.table.length

def isEmpty (es : Entries) : Bool := es.table.isEmpty

def live? (es : Entries) (now : Nat) (key : String) : Option Entry :=
  (Keyed.get? key es.table).filter fun e => !e.isExpired now

/-- The value under a key. An expired entry is dropped. -/
def get (now : Nat) (key : String) (es : Entries) : Option (List UInt8) × Entries :=
  match Keyed.get? key es.table with
  | none => (none, es)
  | some e =>
    if e.isExpired now then (none, ⟨Keyed.erase key es.table⟩) else (some e.value, es)

/-- A value put under a key for a time, unless its end lies beyond the clock. -/
def set (now : Nat) (key : String) (value : List UInt8) (ttl : Nat) : Run Entries Unit :=
  fun es =>
    match Clock.after now ttl with
    | .ok e => (.ok (), ⟨Keyed.insert key ⟨value, e⟩ es.table⟩)
    | .error o => (.error o, es)

/-- The entry under a key is dropped; whether it had not expired. -/
def delete (now : Nat) (key : String) (es : Entries) : Bool × Entries :=
  ((es.live? now key).isSome, ⟨Keyed.erase key es.table⟩)

/-- The keys of the entries that have not expired. -/
def keys (now : Nat) (es : Entries) : List String :=
  (es.table.filter fun m => !m.2.isExpired now).map (·.1)

def cleanup (now : Nat) (es : Entries) : Entries :=
  ⟨es.table.filter fun m => !m.2.isExpired now⟩

end Entries

inductive CacheError where
  | backend (reason : String)
  /-- A value has no JSON text, or a text does not have the form of the value asked for. -/
  | serialization
  deriving DecidableEq, Repr

def CacheError.message? : CacheError → Option String
  | .backend reason => some ("cache backend error: " ++ reason)
  | .serialization => none

/-- Where a cache keeps its entries: a state and what each operation does to it. -/
structure EntryStore (σ : Type) where
  get : String → Run σ (Except CacheError (Option (List UInt8)))
  set : String → List UInt8 → Nat → Run σ (Except CacheError Unit)
  delete : String → Run σ (Except CacheError Bool)
  keys : Run σ (Except CacheError (List String))
  clear : Run σ (Except CacheError Unit)

namespace EntryStore

/-- Entries in memory, as a part of a state with a clock. -/
def memory {σ : Type} (clock : σ → Nat) (part : Part σ Entries) : EntryStore σ where
  get key := do
    let s ← Run.state
    return .ok (← part.run (Run.step (Entries.get (clock s) key)))
  set key value ttl := do
    let s ← Run.state
    return .ok (← part.run (Entries.set (clock s) key value ttl))
  delete key := do
    let s ← Run.state
    return .ok (← part.run (Run.step (Entries.delete (clock s) key)))
  keys := do
    let s ← Run.state
    return .ok ((part.get s).keys (clock s))
  clear := do
    part.run (Run.modify fun _ => Entries.empty)
    return .ok ()

inductive Operation where
  | get
  | set
  | delete
  | keys
  | clear
  deriving DecidableEq, Repr

/-- A store in which some operations fail and do nothing. -/
def failing {σ : Type} (store : EntryStore σ) (fault? : Operation → Option CacheError) :
    EntryStore σ where
  get key := match fault? .get with
    | some e => pure (.error e)
    | none => store.get key
  set key value ttl := match fault? .set with
    | some e => pure (.error e)
    | none => store.set key value ttl
  delete key := match fault? .delete with
    | some e => pure (.error e)
    | none => store.delete key
  keys := match fault? .keys with
    | some e => pure (.error e)
    | none => store.keys
  clear := match fault? .clear with
    | some e => pure (.error e)
    | none => store.clear

end EntryStore

end Turnstile
