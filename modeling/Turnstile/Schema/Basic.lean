import Turnstile.Schema.Constraint
import Turnstile.Schema.Failures

/-!
Schemas of JSON objects. Validation reports every failed rule at once; what fails in a nested object
is reported under the path of the field that holds it.
-/

namespace Turnstile

open Json (Value)

/-- Constraints on the fields of an object, in order. A field may have a schema for the object
that it holds. -/
inductive Schema where
  | mk (rules : List (String × List Constraint × Option Schema)) (forbidsUnknown : Bool)

namespace Schema

/-- A field's name, its constraints and the schema of the object it may hold. -/
abbrev Rule := String × List Constraint × Option Schema

def empty : Schema := ⟨[], false⟩

instance : Inhabited Schema := ⟨empty⟩

def rules : Schema → List Rule
  | ⟨rs, _⟩ => rs

def forbidsUnknown : Schema → Bool
  | ⟨_, b⟩ => b

def field (s : Schema) (name : String) (constraints : List Constraint) : Schema :=
  ⟨s.rules ++ [(name, constraints, none)], s.forbidsUnknown⟩

/-- One more field, which may hold an object with a schema. -/
def nested (s : Schema) (name : String) (constraints : List Constraint) (inner : Schema) : Schema :=
  ⟨s.rules ++ [(name, constraints, some inner)], s.forbidsUnknown⟩

/-- Fields that no rule names are failures. -/
def forbidUnknown (s : Schema) : Schema := ⟨s.rules, true⟩

def isAbsent : Option Value → Bool
  | none => true
  | some .null => true
  | some _ => false

def unknownFailures (rules : List Rule) (object : List (String × Value)) : Failures :=
  (object.filter fun m => !rules.any fun r => r.1 == m.1).foldl
    (fun acc m => acc.add m.1 ("property " ++ m.1 ++ " should not exist")) Failures.empty

/-- The messages of the constraints that fail on a field. -/
def constraintMessages (name : String) (constraints : List Constraint) (value : Option Value)
    (object : List (String × Value)) : List String :=
  constraints.filterMap fun c => c.check name value object

/-- Messages put under a path, which stays out if there are none. -/
def report (acc : Failures) (path : String) (messages : List String) : Failures :=
  if messages.isEmpty then acc else acc.append path messages

mutual

def check : Schema → List (String × Value) → Failures
  | ⟨rules, forbids⟩, object =>
    let unknown := if forbids then unknownFailures rules object else Failures.empty
    checkRules rules object unknown

/-- The failures of the rules, put behind those already found. A field without a value is left
alone if one of its constraints says that it is optional. -/
def checkRules : List (String × List Constraint × Option Schema) → List (String × Value) →
    Failures → Failures
  | [], _, acc => acc
  | (name, constraints, inner) :: rest, object, acc =>
    let value := Keyed.get? name object
    if isAbsent value && constraints.any Constraint.isOptional then checkRules rest object acc
    else
      let acc := report acc name (constraintMessages name constraints value object)
      checkRules rest object (checkInner inner name value acc)

/-- The failures of the object that a field holds, if it holds one and has a schema for it. -/
def checkInner : Option Schema → String → Option Value → Failures → Failures
  | some s, name, some (.object members), acc => acc.merge name (s.check members)
  | _, _, _, acc => acc

end

/-- The failures of a value. What is no object is taken for an empty one. -/
def failures (s : Schema) (value : Value) : Failures := s.check (value.asObject?.getD [])

def validate (s : Schema) (value : Value) : Except Failures Unit := (s.failures value).result

end Schema

end Turnstile
