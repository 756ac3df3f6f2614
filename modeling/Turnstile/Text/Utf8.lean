/-!
UTF-8 over lists of bytes. A reader between characters or inside one takes one byte at a time; the
strict decoder stops at the first byte that rules the text out, the lossy one writes U+FFFD for
each longest ill-formed piece and goes on.
-/

namespace Turnstile.Utf8

/-- A character whose first bytes have been read: how many are still owed, the range of the next
one, and the code point bits gathered so far. -/
structure Partial where
  owed : Nat
  low : UInt8
  high : UInt8
  bits : Nat
  deriving DecidableEq, Repr

inductive Step where
  | emit (c : Char)
  | more (p : Partial)
  | refuse
  deriving DecidableEq, Repr

/-- A first byte. The ranges of the second byte keep out overlong forms, surrogates and code
points above U+10FFFF. -/
def first (b : UInt8) : Step :=
  if b < 0x80 then .emit (Char.ofNat b.toNat)
  else if 0xC2 ≤ b && b ≤ 0xDF then .more ⟨0, 0x80, 0xBF, b.toNat - 0xC0⟩
  else if b == 0xE0 then .more ⟨1, 0xA0, 0xBF, 0⟩
  else if b == 0xED then .more ⟨1, 0x80, 0x9F, 0xD⟩
  else if 0xE1 ≤ b && b ≤ 0xEF then .more ⟨1, 0x80, 0xBF, b.toNat - 0xE0⟩
  else if b == 0xF0 then .more ⟨2, 0x90, 0xBF, 0⟩
  else if 0xF1 ≤ b && b ≤ 0xF3 then .more ⟨2, 0x80, 0xBF, b.toNat - 0xF0⟩
  else if b == 0xF4 then .more ⟨2, 0x80, 0x8F, 4⟩
  else .refuse

/-- A later byte; `owed` counts those after it. -/
def Partial.next (p : Partial) (b : UInt8) : Step :=
  if p.low ≤ b && b ≤ p.high then
    let bits := p.bits * 64 + (b.toNat - 0x80)
    match p.owed with
    | 0 => .emit (Char.ofNat bits)
    | n + 1 => .more ⟨n, 0x80, 0xBF, bits⟩
  else .refuse

/-- The step from between characters or from inside one. -/
def step : Option Partial → UInt8 → Step
  | none, b => first b
  | some p, b => p.next b

/-- The characters of the bytes that follow, if they are well formed to the end. -/
def charsFrom : Option Partial → List UInt8 → Option (List Char)
  | none, [] => some []
  | some _, [] => none
  | p, b :: s =>
    match step p b with
    | .emit c => (charsFrom none s).map (c :: ·)
    | .more q => charsFrom (some q) s
    | .refuse => none

def chars? (s : List UInt8) : Option (List Char) := charsFrom none s

def text? (s : List UInt8) : Option String := (chars? s).map String.ofList

/-- The mark that stands for an ill-formed piece. -/
def replacement : Char := '\uFFFD'

/-- As `charsFrom`, with one mark for each longest ill-formed piece. A byte that cannot continue a
character starts the next one. -/
def lossyFrom : Option Partial → List UInt8 → List Char
  | none, [] => []
  | some _, [] => [replacement]
  | p, b :: s =>
    match step p b with
    | .emit c => c :: lossyFrom none s
    | .more q => lossyFrom (some q) s
    | .refuse =>
      match p with
      | none => replacement :: lossyFrom none s
      | some _ =>
        match first b with
        | .emit c => replacement :: c :: lossyFrom none s
        | .more q => replacement :: lossyFrom (some q) s
        | .refuse => replacement :: replacement :: lossyFrom none s

/-- The text of any byte list, ill-formed pieces marked. -/
def lossy (s : List UInt8) : String := String.ofList (lossyFrom none s)

def encodeChars (cs : List Char) : List UInt8 := cs.flatMap String.utf8EncodeChar

def encode (t : String) : List UInt8 := encodeChars t.toList

@[simp] theorem encodeChars_nil : encodeChars [] = [] := rfl

@[simp] theorem encodeChars_cons (c : Char) (cs : List Char) :
    encodeChars (c :: cs) = String.utf8EncodeChar c ++ encodeChars cs := rfl

@[simp] theorem encodeChars_append (xs ys : List Char) :
    encodeChars (xs ++ ys) = encodeChars xs ++ encodeChars ys := by
  simp [encodeChars]

end Turnstile.Utf8
