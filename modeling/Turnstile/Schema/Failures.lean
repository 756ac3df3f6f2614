import Turnstile.Json.Value

namespace Turnstile

/-- The messages under each failing path, sorted by path. -/
structure Failures where
  fields : List (String × List String)
  deriving DecidableEq, Repr

namespace Failures

def empty : Failures := ⟨[]⟩

def isEmpty (f : Failures) : Bool := f.fields.isEmpty

def size (f : Failures) : Nat := f.fields.length

def messages (f : Failures) (path : String) : List String :=
  (Keyed.get? path f.fields).getD []

/-- Messages put behind those already under the path. -/
def append (f : Failures) (path : String) (messages : List String) : Failures :=
  ⟨Keyed.insert path (f.messages path ++ messages) f.fields⟩

def add (f : Failures) (path message : String) : Failures := f.append path [message]

def single (path message : String) : Failures := empty.add path message

def nestedPath (field child : String) : String := field ++ "." ++ child

/-- The failures of a nested object, each under its path from outside. -/
def merge (f : Failures) (field : String) (inner : Failures) : Failures :=
  inner.fields.foldl (fun acc m => acc.append (nestedPath field m.1) m.2) f

def result (f : Failures) : Except Failures Unit := if f.isEmpty then .ok () else .error f

def summary (f : Failures) : String :=
  "validation failed for " ++ ", ".intercalate (f.fields.map (·.1))

/-- An object with an array of messages for each path. -/
def toJson (f : Failures) : Json.Value :=
  .object (f.fields.map fun (p, ms) => (p, .array (ms.map .string)))

end Failures

end Turnstile
