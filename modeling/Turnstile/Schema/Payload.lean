import Turnstile.Json.Reader
import Turnstile.Schema.Basic
import Turnstile.Schema.Sanitize
import Turnstile.Text.Quoted

/-!
Request payloads: each kind has a schema and a record type. A body is read as JSON, cleaned,
validated, and only then turned into the record.
-/

namespace Turnstile

open Json (Value)

inductive Mismatch where
  | wrongType (found : Value) (expected : String)
  | missing (field : String)
  | tooFew (found : Nat) (record : String) (wanted : Nat)
  | tooMany (found : Nat)

namespace Mismatch

/-- A value named by its kind, with its content if it has no parts. -/
def describe : Value → String
  | .null => "null"
  | .bool b => "boolean `" ++ (if b then "true" else "false") ++ "`"
  | .number (.integer i) => "integer `" ++ String.ofList (Json.intChars i) ++ "`"
  | .number (.double x) => "floating point `" ++ String.ofList (Json.doubleChars x) ++ "`"
  | .string s => "string " ++ Text.quoted s
  | .array _ => "sequence"
  | .object _ => "map"

def message : Mismatch → String
  | .wrongType found expected => "invalid type: " ++ describe found ++ ", expected " ++ expected
  | .missing field => "missing field `" ++ field ++ "`"
  | .tooFew found record wanted =>
    "invalid length " ++ toString found ++ ", expected struct " ++ record ++ " with "
      ++ toString wanted ++ (if wanted = 1 then " element" else " elements")
  | .tooMany found =>
    "invalid length " ++ toString found ++ ", expected fewer elements in array"

end Mismatch

structure TextField where
  name : String
  isRequired : Bool
  deriving DecidableEq, Repr

namespace TextField

/-- The text of a field, given its value if it has one. -/
def read (f : TextField) : Option Value → Except Mismatch (Option String)
  | some (.string s) => .ok (some s)
  | none => if f.isRequired then .error (.missing f.name) else .ok none
  | some .null =>
    if f.isRequired then .error (.wrongType .null "a string") else .ok none
  | some v => .error (.wrongType v "a string")

/-- The texts of fields given by position, `start` of them having been read before. -/
def readItems (record : String) (wanted start : Nat) :
    List TextField → List Value → Except Mismatch (List (Option String))
  | [], _ => .ok []
  | f :: fs, v :: vs => do
    let t ← f.read (some v)
    let ts ← readItems record wanted (start + 1) fs vs
    return t :: ts
  | f :: fs, [] =>
    if f.isRequired then .error (.tooFew start record wanted)
    else do
      let ts ← readItems record wanted (start + 1) fs []
      return none :: ts

/-- The texts of a record's fields. An object gives them by name, an array by position. -/
def readAll (record : String) (fields : List TextField) :
    Value → Except Mismatch (List (Option String))
  | .object members => fields.mapM fun f => f.read (Keyed.get? f.name members)
  | .array items => do
    let ts ← readItems record fields.length 0 fields items
    if fields.length < items.length then .error (.tooMany items.length) else .ok ts
  | v => .error (.wrongType v ("struct " ++ record))

end TextField

/-- A kind of payload: the schema it is held to, and the record it becomes. -/
structure Payload (α : Type) where
  schema : Schema
  read : Value → Except Mismatch α
  write : α → Value

namespace Payload

/-- The record that a request body stands for, or everything that is wrong with it. -/
def accept {α : Type} (p : Payload α) (body : List UInt8) : Except Failures α :=
  match Value.parse? body with
  | none => .error (Failures.single "body" "request body must be valid JSON")
  | some raw =>
    let value := raw.sanitize
    match p.schema.validate value with
    | .error failures => .error failures
    | .ok () =>
      match p.read value with
      | .ok record => .ok record
      | .error mismatch => .error (Failures.single "body" mismatch.message)

/-- Any value that satisfies a schema. -/
def any (schema : Schema) : Payload Value := ⟨schema, .ok, id⟩

end Payload

/-- A member of an object, left out if there is no text. -/
def optionalMember (name : String) : Option String → List (String × Value)
  | some s => [(name, .string s)]
  | none => []

/-- Constraints of notes that may be left out. -/
def optionalNotes : List Constraint := [.optional, .isString, .maxLength 1000]

/-- Proof that a quest has been completed. The content is base64 or a storage path. -/
structure SubmitProof where
  userId : String
  questId : String
  fileName : String
  fileContent : String
  deriving DecidableEq, Repr

namespace SubmitProof

def schema : Schema :=
  Schema.empty
    |>.field "userId" [.isUuid, .notEmpty]
    |>.field "questId" [.isUuid, .notEmpty]
    |>.field "fileName" [.isString, .notEmpty, .minLength 1, .maxLength 255]
    |>.field "fileContent" [.isString, .notEmpty]
    |>.forbidUnknown

def fields : List TextField :=
  [⟨"userId", true⟩, ⟨"questId", true⟩, ⟨"fileName", true⟩, ⟨"fileContent", true⟩]

def read (v : Value) : Except Mismatch SubmitProof := do
  match ← TextField.readAll "SubmitProof" fields v with
  | [some u, some q, some n, some c] => .ok ⟨u, q, n, c⟩
  | _ => .error (.wrongType v "struct SubmitProof")

def toJson (p : SubmitProof) : Value :=
  .object [("userId", .string p.userId), ("questId", .string p.questId),
    ("fileName", .string p.fileName), ("fileContent", .string p.fileContent)]

def payload : Payload SubmitProof := ⟨schema, read, toJson⟩

end SubmitProof

structure RejectSubmission where
  reason : String
  notes : Option String
  deriving DecidableEq, Repr

namespace RejectSubmission

def schema : Schema :=
  Schema.empty
    |>.field "reason"
      [Constraint.notEmpty.withMessage "Rejection reason is required",
        .isString,
        (Constraint.minLength 10).withMessage "Rejection reason must be at least 10 characters",
        (Constraint.maxLength 500).withMessage "Rejection reason cannot exceed 500 characters"]
    |>.field "notes" optionalNotes
    |>.forbidUnknown

def fields : List TextField := [⟨"reason", true⟩, ⟨"notes", false⟩]

def read (v : Value) : Except Mismatch RejectSubmission := do
  match ← TextField.readAll "RejectSubmission" fields v with
  | [some r, n] => .ok ⟨r, n⟩
  | _ => .error (.wrongType v "struct RejectSubmission")

def toJson (p : RejectSubmission) : Value :=
  .object (("reason", .string p.reason) :: optionalMember "notes" p.notes)

def payload : Payload RejectSubmission := ⟨schema, read, toJson⟩

end RejectSubmission

structure ApproveSubmission where
  notes : Option String
  deriving DecidableEq, Repr

namespace ApproveSubmission

def schema : Schema := Schema.empty |>.field "notes" optionalNotes |>.forbidUnknown

def fields : List TextField := [⟨"notes", false⟩]

def read (v : Value) : Except Mismatch ApproveSubmission := do
  match ← TextField.readAll "ApproveSubmission" fields v with
  | [n] => .ok ⟨n⟩
  | _ => .error (.wrongType v "struct ApproveSubmission")

def toJson (p : ApproveSubmission) : Value := .object (optionalMember "notes" p.notes)

def payload : Payload ApproveSubmission := ⟨schema, read, toJson⟩

end ApproveSubmission

structure ChallengeRequest where
  stellarAddress : String
  deriving DecidableEq, Repr

namespace ChallengeRequest

def schema : Schema :=
  Schema.empty
    |>.field "stellarAddress"
      [.isString, .notEmpty,
        Constraint.isAccount.withMessage "Must be a valid Stellar public key address"]
    |>.forbidUnknown

def fields : List TextField := [⟨"stellarAddress", true⟩]

def read (v : Value) : Except Mismatch ChallengeRequest := do
  match ← TextField.readAll "ChallengeRequest" fields v with
  | [some a] => .ok ⟨a⟩
  | _ => .error (.wrongType v "struct ChallengeRequest")

def toJson (p : ChallengeRequest) : Value := .object [("stellarAddress", .string p.stellarAddress)]

def payload : Payload ChallengeRequest := ⟨schema, read, toJson⟩

end ChallengeRequest

end Turnstile
