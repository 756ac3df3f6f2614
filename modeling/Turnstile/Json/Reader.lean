import Turnstile.Json.Tree

/-!
What a JSON text means: the value of a tree, and the fields of a record.

A value is refused when a string has a lone surrogate or ill-formed bytes, when a number is beyond
the doubles, or when arrays and objects are nested deeper than 127. Of several members with one key
the last counts in a value; a record refuses to have one of its fields twice and ignores members
that are not its own.
-/

namespace Turnstile.Json

def isHighSurrogate (u : Nat) : Bool := 0xD800 ≤ u && u ≤ 0xDBFF

def isLowSurrogate (u : Nat) : Bool := 0xDC00 ≤ u && u ≤ 0xDFFF

/-- The bytes of a string. A high surrogate counts only with a low one right after it. -/
def pieceBytes : List Piece → Option (List UInt8)
  | [] => some []
  | .byte b :: ps => (pieceBytes ps).map (b :: ·)
  | .unit u :: .unit v :: ps =>
    if isHighSurrogate u then
      if isLowSurrogate v then
        (pieceBytes ps).map
          (String.utf8EncodeChar (Char.ofNat (0x10000 + (u - 0xD800) * 0x400 + (v - 0xDC00))) ++ ·)
      else none
    else if isLowSurrogate u then none
    else (pieceBytes (.unit v :: ps)).map (String.utf8EncodeChar (Char.ofNat u) ++ ·)
  | .unit u :: ps =>
    if isHighSurrogate u || isLowSurrogate u then none
    else (pieceBytes ps).map (String.utf8EncodeChar (Char.ofNat u) ++ ·)

/-- The text of a string. -/
def piecesText? (ps : List Piece) : Option String := pieceBytes ps >>= Utf8.text?

/-- The deepest nesting of arrays and objects. -/
def maxDepth : Nat := 127

mutual

/-- The value of a tree whose arrays and objects may nest so deep. -/
def Tree.value? (depth : Nat) : Tree → Option Value
  | .null => some .null
  | .bool b => some (.bool b)
  | .numeral n => n.toNumber?.map .number
  | .string ps => (piecesText? ps).map .string
  | .array items =>
    match depth with
    | 0 => none
    | d + 1 => (itemValues? d items).map .array
  | .object members =>
    match depth with
    | 0 => none
    | d + 1 => (memberValues? d members).map fun ms => .object (Keyed.ofList ms)

def itemValues? (depth : Nat) : List Tree → Option (List Value)
  | [] => some []
  | t :: ts => do
    let v ← t.value? depth
    let vs ← itemValues? depth ts
    return v :: vs

def memberValues? (depth : Nat) : List (List Piece × Tree) → Option (List (String × Value))
  | [] => some []
  | (k, t) :: ts => do
    let k ← piecesText? k
    let v ← t.value? depth
    let vs ← memberValues? depth ts
    return (k, v) :: vs

end

def Value.parse? (s : List UInt8) : Option Value := Tree.parse? s >>= Tree.value? maxDepth

namespace Tree

def string? : Tree → Option String
  | .string ps => piecesText? ps
  | _ => none

/-- A natural number below the bound, written without fraction and exponent. -/
def natBelow? (bound : Nat) : Tree → Option Nat
  | .numeral n => n.toNumber? >>= Number.natBelow? bound
  | _ => none

def items? : Tree → Option (List Tree)
  | .array ts => some ts
  | _ => none

def members? : Tree → Option (List (String × Tree))
  | .object ms => ms.mapM fun (k, t) => (piecesText? k).map (·, t)
  | _ => none

/-- The fields of a record, in the order of their names. An object gives them by name, an array by
position. -/
def fields? (names : List String) (t : Tree) : Option (List (Option Tree)) :=
  match t with
  | .array ts =>
    if ts.length ≤ names.length then
      some (ts.map some ++ List.replicate (names.length - ts.length) none)
    else none
  | t => do
    let ms ← t.members?
    let own := ms.filter fun m => names.contains m.1
    if (own.map (·.1)).Nodup then some (names.map fun n => Keyed.get? n own) else none

end Tree

def required {α : Type} (read : Tree → Option α) (field : Option Tree) : Option α := field >>= read

def optional {α : Type} (read : Tree → Option α) : Option Tree → Option (Option α)
  | none => some none
  | some .null => some none
  | some t => (read t).map some

/-- A name out of a list, written as a string or as an object with that one member, null. -/
def variant? : Tree → Option String
  | .string ps => piecesText? ps
  | .object [(k, .null)] => piecesText? k
  | _ => none

end Turnstile.Json
