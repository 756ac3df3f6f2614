import Turnstile.Text.Ascii

/-!
Network addresses of callers, and their texts. The text of an address of version 6 leaves out the
first longest run of two or more zero groups; an embedded address of version 4 keeps its dots.
-/

namespace Turnstile

inductive IpAddress where
  | v4 (a b c d : Nat)
  | v6 (groups : List Nat)
  deriving DecidableEq, Repr

structure Peer where
  ip : IpAddress
  port : Nat
  deriving DecidableEq, Repr

namespace IpAddress

def dotted (a b c d : Nat) : String :=
  ".".intercalate ([a, b, c, d].map fun n => toString n)

def leadingZeros (gs : List Nat) : Nat := (gs.takeWhile (· == 0)).length

/-- The start and length of the first longest run of zero groups. -/
def longestZeros (gs : List Nat) : Nat × Nat :=
  (List.range gs.length).foldl
    (fun best i =>
      let n := leadingZeros (gs.drop i)
      if best.2 < n then (i, n) else best)
    (0, 0)

def groupTexts (gs : List Nat) : String :=
  ":".intercalate (gs.map fun g => String.ofList (Nat.toDigits 16 g))

def text : IpAddress → String
  | .v4 a b c d => dotted a b c d
  | .v6 gs =>
    match gs with
    | [0, 0, 0, 0, 0, 0xFFFF, g, h] =>
      "::ffff:" ++ dotted (g / 256) (g % 256) (h / 256) (h % 256)
    | gs =>
      let (start, n) := longestZeros gs
      if n < 2 then groupTexts gs
      else groupTexts (gs.take start) ++ "::" ++ groupTexts (gs.drop (start + n))

/-- A decimal octet: up to three digits without a leading zero. -/
def octet? (cs : List Char) : Option Nat :=
  match Ascii.digits? cs with
  | none => none
  | some ds =>
    if ds.isEmpty || 3 < ds.length || (1 < ds.length && ds.head? == some 0) then none
    else
      let n := Ascii.ofDigits ds
      if n < 256 then some n else none

def octets? (cs : List Char) : Option (Nat × Nat × Nat × Nat) :=
  match (cs.splitOn '.').mapM octet? with
  | some [a, b, c, d] => some (a, b, c, d)
  | _ => none

/-- A group of one to four hexadecimal digits. -/
def group? (cs : List Char) : Option Nat :=
  if cs.isEmpty || 4 < cs.length then none
  else cs.foldlM (fun n c => (Ascii.hexValue? c.toUInt8).bind fun d =>
    if c.toNat < 128 then some (n * 16 + d) else none) 0

/-- Groups between colons; the last one may be an address of version 4, which gives two. -/
def groupList? (mayEmbed : Bool) (parts : List (List Char)) : Option (List Nat) :=
  match parts with
  | [] => some []
  | [last] =>
    match group? last with
    | some g => some [g]
    | none =>
      if mayEmbed then (octets? last).map fun (a, b, c, d) => [a * 256 + b, c * 256 + d] else none
  | p :: ps => do
    let g ← group? p
    let gs ← groupList? mayEmbed ps
    return g :: gs

/-- The parts of a text between colons; an empty text has none. -/
def colonParts (cs : List Char) : List (List Char) := if cs.isEmpty then [] else cs.splitOn ':'

/-- The text before the first double colon and the text behind it. -/
def splitDouble : List Char → Option (List Char × List Char)
  | [] => none
  | ':' :: ':' :: rest => some ([], rest)
  | c :: cs => (splitDouble cs).map fun (a, b) => (c :: a, b)

def v6? (cs : List Char) : Option IpAddress :=
  match splitDouble cs with
  | none => do
    let gs ← groupList? true (colonParts cs)
    if gs.length = 8 then some (.v6 gs) else none
  | some (before, behind) => do
    let gs ← groupList? false (colonParts before)
    let hs ← groupList? true (colonParts behind)
    if gs.length + hs.length < 8 then
      some (.v6 (gs ++ List.replicate (8 - gs.length - hs.length) 0 ++ hs))
    else none

def parse? (t : String) : Option IpAddress :=
  match octets? t.toList with
  | some (a, b, c, d) => some (.v4 a b c d)
  | none => v6? t.toList

def loopback : IpAddress := .v4 127 0 0 1

end IpAddress

namespace Peer

/-- The text before the last colon and the text behind it. -/
def splitPort? (cs : List Char) : Option (List Char × List Char) :=
  if cs.contains ':' then
    let port := (cs.reverse.takeWhile (· != ':')).reverse
    some (cs.take (cs.length - port.length - 1), port)
  else none

/-- An address and a port, joined by a colon; an address of version 6 stands in brackets. -/
def parse? (t : String) : Option Peer := do
  let (host, port) ← splitPort? t.toList
  let port ← if port.head? == some '+' then none else Ascii.natBelow? 65536 (String.ofList port)
  match host with
  | '[' :: rest =>
    if rest.getLast? == some ']' then
      let ip ← IpAddress.v6? rest.dropLast
      some ⟨ip, port⟩
    else none
  | host =>
    let (a, b, c, d) ← IpAddress.octets? host
    some ⟨.v4 a b c d, port⟩

inductive BindError where
  | invalidAddress
  | invalidPort
  deriving DecidableEq, Repr

def BindError.message (address : String) : BindError → String
  | .invalidAddress => "failed to bind to " ++ address ++ ": invalid socket address"
  | .invalidPort => "failed to bind to " ++ address ++ ": invalid port value"

/-- The address of a host: the one that its name writes, or this machine's loopback under the name
that it has everywhere. -/
def host? (name : String) : Option IpAddress :=
  if name = "localhost" then some IpAddress.loopback else IpAddress.parse? name

/-- The address to listen on. What is no address with a port must at least be a host with one. -/
def listening (t : String) : Except BindError Peer :=
  match parse? t with
  | some p => .ok p
  | none =>
    match splitPort? t.toList with
    | none => .error .invalidAddress
    | some (host, port) =>
      match Ascii.natBelow? 65536 (String.ofList port), host? (String.ofList host) with
      | none, _ => .error .invalidPort
      | some _, none => .error .invalidAddress
      | some n, some ip => .ok ⟨ip, n⟩

end Peer

end Turnstile
