import Turnstile.Json.Printer
import Turnstile.Schema.Address
import Turnstile.Schema.Formats

/-!
Constraints on one field of an object. Most look at the field alone; three look at another field of
the same object. Each failure is a message that names the field.
-/

namespace Turnstile

open Json (Value Number)

inductive Constraint where
  /-- The other constraints count only when the field has a value. -/
  | optional
  | notEmpty
  | isString
  | minLength (n : Nat)
  | maxLength (n : Nat)
  | isUuid
  | isAccount
  | isProofHash
  | minSize (n : Nat)
  | maxSize (n : Nat)
  /-- No two items of the array are deeply equal. -/
  | unique
  | elements (accepts : Value → Bool)
  /-- There and not empty if the other field has the value. -/
  | requiredIf (other : String) (value : Value)
  /-- There and not empty if the other field is truthy. -/
  | requiredIfPresent (other : String)
  /-- Equal to the other field. -/
  | matches (other : String)
  /-- A constraint that reports a fixed message. -/
  | reporting (inner : Constraint) (message : String)

namespace Constraint

/-- The constraint with a message of its own, which replaces an earlier one. -/
def withMessage (c : Constraint) (message : String) : Constraint :=
  match c with
  | .reporting inner _ => .reporting inner message
  | c => .reporting c message

def isOptional : Constraint → Bool
  | .optional => true
  | .reporting inner _ => inner.isOptional
  | _ => false

/-- Missing, null or the empty text. -/
def isBlank : Option Value → Bool
  | none => true
  | some .null => true
  | some (.string s) => s.isEmpty
  | some _ => false

/-- Everything but null, false, zero and the empty text. -/
def isTruthy : Value → Bool
  | .null => false
  | .bool b => b
  | .number n => !n.isZero
  | .string s => !s.isEmpty
  | .array _ => true
  | .object _ => true

mutual

/-- A text that deeply equal values share. An integral double below `2 ^ 63` in magnitude is
written as the integer. -/
def canonical : Value → List Char
  | .number (.integer i) => Json.intChars i
  | .number (.double x) =>
    if x.isIntegral && x.absBelow Json.Number.signedBound then Json.intChars x.truncate else Json.doubleChars x
  | .array [] => ['[', ']']
  | .array (v :: vs) => '[' :: (canonical v ++ canonicalItems vs)
  | .object [] => ['{', '}']
  | .object ((k, v) :: ms) =>
    '{' :: (Json.quote k.toList ++ ':' :: (canonical v ++ canonicalMembers ms))
  | v => v.chars

def canonicalItems : List Value → List Char
  | [] => [']']
  | v :: vs => ',' :: (canonical v ++ canonicalItems vs)

def canonicalMembers : List (String × Value) → List Char
  | [] => ['}']
  | (k, v) :: ms => ',' :: (Json.quote k.toList ++ ':' :: (canonical v ++ canonicalMembers ms))

end

/-- All items have different canonical texts. -/
def allDistinct (items : List Value) : Bool := (items.map canonical).Nodup

/-- Equality of a field with another one; two missing fields are equal. -/
def sameField : Option Value → Option Value → Bool
  | none, none => true
  | some v, some w => v.same w
  | _, _ => false

def onText (value : Option Value) (p : String → Bool) : Bool :=
  match value with
  | some (.string s) => p s
  | _ => false

def onItems (value : Option Value) (p : List Value → Bool) : Bool :=
  match value with
  | some (.array items) => p items
  | _ => false

/-- The constraint holds of a field with this value in this object. -/
def holds (c : Constraint) (value : Option Value) (object : List (String × Value)) : Bool :=
  match c with
  | .optional => true
  | .notEmpty => !isBlank value
  | .isString => onText value fun _ => true
  | .minLength n => onText value fun s => n ≤ s.length
  | .maxLength n => onText value fun s => s.length ≤ n
  | .isUuid => onText value Formats.isUuid
  | .isAccount => onText value Address.isAccount
  | .isProofHash => onText value Formats.isProofHash
  | .minSize n => onItems value fun items => n ≤ items.length
  | .maxSize n => onItems value fun items => items.length ≤ n
  | .unique => onItems value allDistinct
  | .elements accepts => onItems value fun items => items.all accepts
  | .requiredIf other expected =>
    !sameField (Keyed.get? other object) (some expected) || !isBlank value
  | .requiredIfPresent other =>
    !(Keyed.get? other object).any isTruthy || !isBlank value
  | .matches other => sameField value (Keyed.get? other object)
  | .reporting inner _ => inner.holds value object

/-- A value inside a message: a text as it is, all else as JSON. -/
def display : Value → String
  | .string s => s
  | v => v.text

def message (field : String) : Constraint → String
  | .optional => ""
  | .notEmpty => field ++ " should not be empty"
  | .isString => field ++ " must be a string"
  | .minLength n =>
    field ++ " must be longer than or equal to " ++ toString n ++ " characters"
  | .maxLength n =>
    field ++ " must be shorter than or equal to " ++ toString n ++ " characters"
  | .isUuid => field ++ " must be a UUID"
  | .isAccount => field ++ " must be a valid Stellar public key address"
  | .isProofHash =>
    field ++ " must be a valid proof hash (SHA-256, IPFS CID, or Arweave transaction ID)"
  | .minSize n => field ++ " must have at least " ++ toString n ++ " elements"
  | .maxSize n => field ++ " must have at most " ++ toString n ++ " elements"
  | .unique => field ++ " must contain unique elements"
  | .elements _ => "All elements in " ++ field ++ " must be valid"
  | .requiredIf other value =>
    field ++ " is required when " ++ other ++ " is " ++ display value
  | .requiredIfPresent other => field ++ " is required when " ++ other ++ " is present"
  | .matches other => field ++ " must match " ++ other
  | .reporting _ m => m

def check (c : Constraint) (field : String) (value : Option Value)
    (object : List (String × Value)) : Option String :=
  if c.holds value object then none else some (c.message field)

end Constraint

end Turnstile
