import Turnstile.Json.Numeral
import Turnstile.Text.Ascii
import Turnstile.Text.Utf8

/-!
The grammar of JSON texts. A tree keeps what the text says before it is given a meaning: numerals
as written, strings with their escaped code units, all members of an object in order. Parts of a
text that nobody reads are only held to this grammar.
-/

namespace Turnstile.Json

/-- A piece of a string: a byte, or a code unit of sixteen bits written with `\u`. -/
inductive Piece where
  | byte (b : UInt8)
  | unit (u : Nat)
  deriving DecidableEq, Repr

inductive Tree where
  | null
  | bool (b : Bool)
  | numeral (n : Numeral)
  | string (pieces : List Piece)
  | array (items : List Tree)
  | object (members : List (List Piece × Tree))
  deriving Repr

namespace Grammar

def isSpace (b : UInt8) : Bool := b == 0x20 || b == 0x09 || b == 0x0A || b == 0x0D

def skipSpace (s : List UInt8) : List UInt8 := s.dropWhile isSpace

def isDigit (b : UInt8) : Bool := 0x30 ≤ b && b ≤ 0x39

def digits (s : List UInt8) : List Nat × List UInt8 :=
  ((s.takeWhile isDigit).map (·.toNat - 0x30), s.dropWhile isDigit)

def digits1 (s : List UInt8) : Option (List Nat × List UInt8) :=
  let r := digits s
  if r.1.isEmpty then none else some r

/-- The part before the point: a zero alone, or digits that start with another one. -/
def whole (s : List UInt8) : Option (List Nat × List UInt8) :=
  match digits1 s with
  | some (0 :: _ :: _, _) => none
  | r => r

def fraction (s : List UInt8) : Option (List Nat × List UInt8) :=
  match s with
  | 0x2E :: t => digits1 t
  | _ => some ([], s)

def exponent (s : List UInt8) : Option (Option Exponent × List UInt8) :=
  match s with
  | b :: t =>
    if b == 0x65 || b == 0x45 then
      let (negative, u) := match t with
        | 0x2B :: u => (false, u)
        | 0x2D :: u => (true, u)
        | u => (false, u)
      (digits1 u).map fun (ds, r) => (some ⟨negative, ds⟩, r)
    else some (none, s)
  | [] => some (none, s)

def numeral (s : List UInt8) : Option (Numeral × List UInt8) := do
  let (negative, s) := match s with
    | 0x2D :: t => (true, t)
    | t => (false, t)
  let (w, s) ← whole s
  let (f, s) ← fraction s
  let (e, s) ← exponent s
  return (⟨negative, w, f, e⟩, s)

def codeUnit (s : List UInt8) : Option (Nat × List UInt8) :=
  match s with
  | a :: b :: c :: d :: t => do
    let a ← Ascii.hexValue? a
    let b ← Ascii.hexValue? b
    let c ← Ascii.hexValue? c
    let d ← Ascii.hexValue? d
    return (((a * 16 + b) * 16 + c) * 16 + d, t)
  | _ => none

/-- The byte that a letter after a backslash stands for. -/
def shortEscape? (b : UInt8) : Option UInt8 :=
  if b == 0x22 || b == 0x5C || b == 0x2F then some b
  else if b == 0x62 then some 0x08
  else if b == 0x66 then some 0x0C
  else if b == 0x6E then some 0x0A
  else if b == 0x72 then some 0x0D
  else if b == 0x74 then some 0x09
  else none

/-- The pieces of a string up to its closing quote, which is taken too. Control characters must be
escaped. -/
def pieces (s : List UInt8) : Option (List Piece × List UInt8) :=
  match s with
  | 0x22 :: t => some ([], t)
  | 0x5C :: 0x75 :: a :: b :: c :: d :: t =>
    match codeUnit [a, b, c, d] with
    | some (u, _) => (pieces t).map fun (ps, r) => (.unit u :: ps, r)
    | none => none
  | 0x5C :: b :: t =>
    match shortEscape? b with
    | some b => (pieces t).map fun (ps, r) => (.byte b :: ps, r)
    | none => none
  | b :: t =>
    if b < 0x20 || b == 0x5C then none
    else (pieces t).map fun (ps, r) => (.byte b :: ps, r)
  | [] => none

/-- The rest behind a word that must stand at the front. -/
def word (w s : List UInt8) : Option (List UInt8) :=
  if w.isPrefixOf s then some (s.drop w.length) else none

mutual

/-- A value at the front of a text, and what follows it. Each step into a value, an item or a
member uses up fuel. -/
def value : Nat → List UInt8 → Option (Tree × List UInt8)
  | 0, _ => none
  | fuel + 1, s =>
    match s with
    | 0x6E :: t => (word [0x75, 0x6C, 0x6C] t).map (.null, ·)
    | 0x74 :: t => (word [0x72, 0x75, 0x65] t).map (.bool true, ·)
    | 0x66 :: t => (word [0x61, 0x6C, 0x73, 0x65] t).map (.bool false, ·)
    | 0x22 :: t => (pieces t).map fun (ps, r) => (.string ps, r)
    | 0x5B :: t =>
      match skipSpace t with
      | 0x5D :: r => some (.array [], r)
      | t => (items fuel t).map fun (xs, r) => (.array xs, r)
    | 0x7B :: t =>
      match skipSpace t with
      | 0x7D :: r => some (.object [], r)
      | t => (members fuel t).map fun (xs, r) => (.object xs, r)
    | s => (numeral s).map fun (n, r) => (.numeral n, r)

def items : Nat → List UInt8 → Option (List Tree × List UInt8)
  | 0, _ => none
  | fuel + 1, s => do
    let (x, s) ← value fuel s
    match skipSpace s with
    | 0x5D :: r => some ([x], r)
    | 0x2C :: t =>
      let (xs, r) ← items fuel (skipSpace t)
      some (x :: xs, r)
    | _ => none

def members : Nat → List UInt8 → Option (List (List Piece × Tree) × List UInt8)
  | 0, _ => none
  | fuel + 1, s =>
    match s with
    | 0x22 :: t => do
      let (k, s) ← pieces t
      match skipSpace s with
      | 0x3A :: t =>
        let (x, s) ← value fuel (skipSpace t)
        match skipSpace s with
        | 0x7D :: r => some ([(k, x)], r)
        | 0x2C :: t =>
          let (xs, r) ← members fuel (skipSpace t)
          some ((k, x) :: xs, r)
        | _ => none
      | _ => none
    | _ => none

end

end Grammar

/-- The tree of a text that holds one value and nothing but space around it. Every step of the
reader takes a byte or goes from an array or object into its first value, so twice the length is
fuel enough. -/
def Tree.parse? (s : List UInt8) : Option Tree :=
  match Grammar.value (2 * s.length + 2) (Grammar.skipSpace s) with
  | some (t, r) => if (Grammar.skipSpace r).isEmpty then some t else none
  | none => none

end Turnstile.Json
