import Turnstile.Http.Reading
import Turnstile.Http.Request

/-!
The head of a request: blank lines, the request line, up to sixty-four header lines, and an empty
line. Whatever follows is the body and the requests after it.
-/

namespace Turnstile

namespace Head.Grammar

def isTokenByte (b : UInt8) : Bool :=
  (0x30 ≤ b && b ≤ 0x39) || (0x41 ≤ b && b ≤ 0x5A) || (0x61 ≤ b && b ≤ 0x7A)
    || b == 0x21 || (0x23 ≤ b && b ≤ 0x27) || b == 0x2A || b == 0x2B || b == 0x2D || b == 0x2E
    || b == 0x5E || b == 0x5F || b == 0x60 || b == 0x7C || b == 0x7E

/-- The bytes of a request target: visible ones and those above ASCII. -/
def isTargetByte (b : UInt8) : Bool := (0x21 ≤ b && b ≤ 0x7E) || 0x80 ≤ b

def isBlankByte (b : UInt8) : Bool := b == 0x20 || b == 0x09

def isValueByte (b : UInt8) : Bool := b == 0x09 || (0x20 ≤ b && b ≤ 0x7E) || 0x80 ≤ b

/-- Empty lines in front of a request are skipped. -/
def skipEmptyLines : Reader Unit
  | [] => .incomplete
  | 0x0A :: s => skipEmptyLines s
  | [0x0D] => .incomplete
  | 0x0D :: 0x0A :: s => skipEmptyLines s
  | 0x0D :: _ :: _ => .invalid .newLine
  | b :: s => .done () (b :: s)

def asciiText (bs : List UInt8) : String := String.ofList (bs.map fun b => Char.ofNat b.toNat)

def method : Reader Method := fun s =>
  (Reader.upTo1 isTokenByte 0x20 .token s).bind fun bs rest =>
    .done (Method.ofToken (asciiText bs)) rest

/-- The target is a well-formed text. -/
def target : Reader String := fun s =>
  (Reader.upTo1 isTargetByte 0x20 .token s).bind fun bs rest =>
    match Utf8.text? bs with
    | some t => .done t rest
    | none => .invalid .token

def minorVersion : Reader Version
  | [] => .incomplete
  | b :: s =>
    if b == 0x30 then .done .http10 s
    else if b == 0x31 then .done .http11 s
    else .invalid .version

/-- `HTTP/1.0` or `HTTP/1.1`, up to the end of the line. -/
def version : Reader Version := fun s =>
  (Reader.literal .version [0x48, 0x54, 0x54, 0x50, 0x2F, 0x31, 0x2E] s).bind fun _ s =>
    (minorVersion s).bind fun v s =>
      (Reader.lineEnd s).bind fun _ s => .done v s

def skipBlanks : Reader Unit
  | [] => .incomplete
  | b :: s => if isBlankByte b then skipBlanks s else .done () (b :: s)

/-- The bytes of a value up to the end of its line. -/
def valueBytes : Reader (List UInt8)
  | [] => .incomplete
  | 0x0A :: s => .done [] s
  | [0x0D] => .incomplete
  | 0x0D :: 0x0A :: s => .done [] s
  | b :: s =>
    if isValueByte b then (valueBytes s).map (b :: ·) else .invalid .headerValue

/-- The bytes without the blanks at their end. -/
def trimEnd (bs : List UInt8) : List UInt8 := (bs.reverse.dropWhile isBlankByte).reverse

/-- A header line: a name directly followed by a colon, blanks, and a value. -/
def field : Reader (String × List UInt8) := fun s =>
  (Reader.upTo1 isTokenByte 0x3A .headerName s).bind fun name s =>
    (skipBlanks s).bind fun _ s =>
      (valueBytes s).bind fun value s => .done (asciiText name, trimEnd value) s

/-- The header lines up to the empty line that ends the head, of which there may be so many. -/
def fields : Nat → Reader (List (String × List UInt8))
  | _, [] => .incomplete
  | _, 0x0A :: s => .done [] s
  | _, [0x0D] => .incomplete
  | _, 0x0D :: 0x0A :: s => .done [] s
  | _, 0x0D :: _ :: _ => .invalid .newLine
  | 0, s => (field s).bind fun _ _ => .invalid .tooManyHeaders
  | limit + 1, s =>
    (field s).bind fun f s => (fields limit s).map (f :: ·)

def maxFields : Nat := 64

/-- The fields whose values are well-formed texts. -/
def textFields (fs : List (String × List UInt8)) : Headers :=
  ⟨fs.filterMap fun f => (Utf8.text? f.2).map (f.1, ·)⟩

/-- The path before the first question mark and the query behind it. -/
def splitTarget (t : String) : String × Option String :=
  let cs := t.toList
  (String.ofList (cs.takeWhile (· != '?')),
    if cs.contains '?' then some (String.ofList ((cs.dropWhile (· != '?')).drop 1)) else none)

end Head.Grammar

def Head.read : Reader Head := fun s =>
  (Grammar.skipEmptyLines s).bind fun _ s =>
    (Grammar.method s).bind fun m s =>
      (Grammar.target s).bind fun t s =>
        (Grammar.version s).bind fun v s =>
          (Grammar.fields Grammar.maxFields s).bind fun fs s =>
            let (path, query) := Grammar.splitTarget t
            .done ⟨m, path, query, v, Grammar.textFields fs⟩ s

inductive RequestError where
  | incomplete
  | malformed (fault : HeadFault)
  deriving DecidableEq, Repr

def RequestError.message : RequestError → String
  | .incomplete => "request is incomplete: more data needed"
  | .malformed fault => "HTTP parse error: " ++ fault.message

/-- The request at the front of a buffer, all that follows its head taken for the body. -/
def Request.parse (buffer : List UInt8) : Except RequestError Request :=
  match Head.read buffer with
  | .done head rest => .ok { toHead := head, body := rest }
  | .incomplete => .error .incomplete
  | .invalid fault => .error (.malformed fault)

end Turnstile
