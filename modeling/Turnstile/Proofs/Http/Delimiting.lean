import Turnstile.Http.Response
import Turnstile.Proofs.Json.RoundTrip

/-!
Responses on a connection come one behind the other, and only what they say themselves tells where
one ends. `Message.readAll` is what a client does: a status line, fields up to a blank line, and as
many bytes as the fields say. `Message.readAll_flatMap_wire` says that it gets back what was sent,
whatever the bodies hold.
-/

namespace Turnstile

section Cut

variable {α : Type} [DecidableEq α]

/-- What stands in front of the first `a` with a `b` right behind it, and what is behind both. -/
def cutAt (a b : α) : List α → Option (List α × List α)
  | [] => none
  | c :: s =>
    if c = a ∧ s.head? = some b then some ([], s.tail)
    else (cutAt a b s).map fun (front, rest) => (c :: front, rest)

theorem cutAt_append {a : α} (b : α) {front : List α} (clear : a ∉ front) (rest : List α) :
    cutAt a b (front ++ a :: b :: rest) = some (front, rest) := by
  induction front with
  | nil => simp [cutAt]
  | cons c front ih =>
    obtain ⟨other, later⟩ := not_or.mp (mt List.mem_cons.mpr clear)
    rw [List.cons_append, cutAt, if_neg (fun cut => other cut.1.symm), ih later]
    rfl

theorem length_lt_of_cutAt {a b : α} {s front rest : List α}
    (cut : cutAt a b s = some (front, rest)) : rest.length < s.length := by
  induction s generalizing front with
  | nil => cases cut
  | cons c s ih =>
    rw [cutAt] at cut
    split at cut
    · cases cut
      rw [List.length_tail, List.length_cons]
      omega
    · obtain ⟨⟨front', rest'⟩, cut', same⟩ := Option.map_eq_some_iff.mp cut
      cases same
      exact Nat.lt_succ_of_lt (ih cut')

end Cut

/-- A response as a client has it: the number of its status, its fields and its body. -/
structure Message where
  code : Nat
  fields : List (String × String)
  body : List UInt8
  deriving DecidableEq, Repr

namespace Message

/-- The number that a text of one digit or more writes. -/
def natural? (cs : List Char) : Option Nat :=
  if cs.isEmpty then none else (Ascii.digits? cs).map Ascii.ofDigits

def version : List Char := "HTTP/1.1 ".toList

def code? (line : List UInt8) : Option Nat := do
  let cs ← Utf8.chars? line
  if version.isPrefixOf cs then natural? ((cs.drop version.length).takeWhile (· != ' ')) else none

/-- A name and a value, parted by the first colon with a blank behind it. -/
def field? (line : List UInt8) : Option (String × String) := do
  let (name, value) ← cutAt ':' ' ' (← Utf8.chars? line)
  return (String.ofList name, String.ofList value)

/-- The bytes up to the end of a line, and those behind it. -/
def takeLine (s : List UInt8) : Option (List UInt8 × List UInt8) := cutAt 0x0D 0x0A s

/-- The fields of the lines up to the first blank one, and the bytes behind that. -/
def readFields (s : List UInt8) : Option (List (String × String) × List UInt8) :=
  match _h : takeLine s with
  | none => none
  | some ([], rest) => some ([], rest)
  | some (line, rest) => do
    let f ← field? line
    let (fs, rest) ← readFields rest
    return (f :: fs, rest)
termination_by s.length
decreasing_by exact length_lt_of_cutAt _h

/-- The length that the first field of that name gives. -/
def bodyLength? (fields : List (String × String)) : Option Nat := do
  natural? (← (⟨fields⟩ : Headers).get? "content-length").toList

/-- The message at the front of a stream, if all of it is there, and the bytes behind it. -/
def read? (s : List UInt8) : Option (Message × List UInt8) := do
  let (line, s) ← takeLine s
  let code ← code? line
  let (fields, s) ← readFields s
  let size ← bodyLength? fields
  if s.length < size then none else some (⟨code, fields, s.take size⟩, s.drop size)

theorem length_lt_of_readFields {s rest : List UInt8} {fs : List (String × String)}
    (read : readFields s = some (fs, rest)) : rest.length < s.length := by
  fun_induction readFields s generalizing fs rest with
  | case1 s none => cases read
  | case2 s rest' cut =>
    cases read
    exact length_lt_of_cutAt cut
  | case3 s line rest' _ cut ih =>
    obtain ⟨f, -, read⟩ := Option.bind_eq_some_iff.mp read
    obtain ⟨⟨fs', rest''⟩, later, same⟩ := Option.bind_eq_some_iff.mp read
    cases same
    exact Nat.lt_trans (ih later) (length_lt_of_cutAt cut)

theorem length_lt_of_read? {s rest : List UInt8} {m : Message} (read : read? s = some (m, rest)) :
    rest.length < s.length := by
  obtain ⟨⟨line, s₁⟩, cut, read⟩ := Option.bind_eq_some_iff.mp read
  obtain ⟨code, -, read⟩ := Option.bind_eq_some_iff.mp read
  obtain ⟨⟨fields, s₂⟩, rows, read⟩ := Option.bind_eq_some_iff.mp read
  obtain ⟨size, -, read⟩ := Option.bind_eq_some_iff.mp read
  have first := length_lt_of_cutAt cut
  have second := length_lt_of_readFields rows
  split at read
  · cases read
  · cases read
    rw [List.length_drop]
    omega

/-- The messages of a whole stream, one behind the other. -/
def readAll (s : List UInt8) : Option (List Message) :=
  if s.isEmpty then some []
  else
    match _h : read? s with
    | none => none
    | some (m, rest) => (readAll rest).map (m :: ·)
termination_by s.length
decreasing_by exact length_lt_of_read? _h

end Message

namespace Response

/-- A field that stays on its line, and whose name ends where its value begins. -/
def IsLine (f : String × String) : Prop :=
  (f.1 ≠ "" ∧ ':' ∉ f.1.toList ∧ '\r' ∉ f.1.toList ∧ '\n' ∉ f.1.toList) ∧
    '\r' ∉ f.2.toList ∧ '\n' ∉ f.2.toList

instance (f : String × String) : Decidable (IsLine f) := inferInstanceAs (Decidable (_ ∧ _))

/-- The fields are lines, and none of them speaks of the length of the body. -/
def IsSendable (r : Response) : Prop :=
  ∀ f ∈ r.headers.entries, IsLine f ∧ Ascii.lower f.1 ≠ "content-length"

instance (r : Response) : Decidable r.IsSendable := inferInstanceAs (Decidable (∀ f ∈ _, _))

/-- What a client is to get: behind the fields of the response, a type for a body that has none, the
fate of the connection, and the length of the body in decimal. -/
def message (r : Response) : Message where
  code := r.status.code
  fields := r.headers.entries
    ++ (if r.body ≠ [] ∧ ∀ f ∈ r.headers.entries, Ascii.lower f.1 ≠ "content-type" then
          [("Content-Type", "text/plain; charset=utf-8")]
        else [])
    ++ [("Connection", if r.keepAlive then "keep-alive" else "close"),
      ("Content-Length", toString r.body.length)]
  body := r.body

end Response

namespace Ascii

theorem sameWord_iff {a b : String} : sameWord a b = true ↔ lower a = lower b := by
  rw [sameWord, beq_iff_eq, lower, lower, String.ofList_inj]

theorem toList_toString (n : Nat) : (toString n).toList = Json.natChars n := by
  show (String.ofList (Nat.toDigits 10 n)).toList = _
  rw [String.toList_ofList, Json.natChars]

end Ascii

/-- There is a field of a name, in whatever case of its letters. -/
theorem Headers.contains_iff {h : Headers} {name : String} :
    h.contains name = true ↔ ∃ f ∈ h.entries, Ascii.lower f.1 = Ascii.lower name := by
  simp [contains, get?, Ascii.sameWord_iff]

namespace Response

theorem fields_message (r : Response) : r.message.fields = r.wireFields := by
  have typed : (if r.body ≠ [] ∧ ∀ f ∈ r.headers.entries, Ascii.lower f.1 ≠ "content-type" then
      [plainText] else []) = r.defaultType := by
    have lowered : Ascii.lower "content-type" = "content-type" := by decide
    have untyped : (∀ f ∈ r.headers.entries, Ascii.lower f.1 ≠ "content-type") ↔
        r.headers.contains "content-type" = false := by
      rw [← Bool.not_eq_true, Headers.contains_iff, lowered]
      simp
    simp only [defaultType, untyped]
    cases r.headers.contains "content-type" <;> cases r.body <;> simp
  rw [wireFields, ← typed]
  rfl

end Response

namespace Message

open Utf8 (encodeChars)

/-- The end of a line is found behind any text that has none in it. -/
theorem takeLine_encodeChars {cs : List Char} (unbroken : '\r' ∉ cs) (rest : List UInt8) :
    takeLine (encodeChars (cs ++ Response.lineEnd) ++ rest) = some (encodeChars cs, rest) := by
  have clear : (0x0D : UInt8) ∉ encodeChars cs := Utf8.notMem_encodeChars (by decide) unbroken
  rw [Utf8.encodeChars_append, List.append_assoc]
  exact cutAt_append 0x0A clear rest

theorem natural?_toString (n : Nat) : natural? (toString n).toList = some n := by
  have nonempty : (Json.natChars n).isEmpty = false := by
    simp [Json.natChars, Nat.toDigits_ne_nil]
  rw [Ascii.toList_toString, natural?, nonempty, Ascii.digits?_of_isDigit Json.isDigit_natChars]
  exact congrArg some (Json.ofDigits_natDigits n)

theorem code?_statusLine (s : Status) :
    code? (encodeChars ("HTTP/1.1 " ++ s.line).toList) = some s.code := by
  rw [code?, Utf8.chars?_encodeChars]
  cases s <;> decide +kernel

theorem field?_line {f : String × String} (colon : ':' ∉ f.1.toList) :
    field? (encodeChars (f.1.toList ++ ':' :: ' ' :: f.2.toList)) = some f := by
  rw [field?, Utf8.chars?_encodeChars]
  show (cutAt ':' ' ' (f.1.toList ++ ':' :: ' ' :: f.2.toList) >>= fun (name, value) =>
    some (String.ofList name, String.ofList value)) = some f
  rw [cutAt_append ' ' colon]
  simp

theorem readFields_of_blank {s rest : List UInt8} (line : takeLine s = some ([], rest)) :
    readFields s = some ([], rest) := by
  rw [readFields]
  split <;> simp_all

theorem readFields_of_line {s line rest rest' : List UInt8} {f : String × String}
    {fs : List (String × String)} (taken : takeLine s = some (line, rest))
    (row : field? line = some f) (later : readFields rest = some (fs, rest')) :
    readFields s = some (f :: fs, rest') := by
  have notBlank : line ≠ [] := by
    rintro rfl
    cases row
  rw [readFields]
  split <;> simp_all

/-- Lines are read back as the fields that they were written from, up to the blank one. -/
theorem readFields_of_isLine {fs : List (String × String)} (lines : ∀ f ∈ fs, Response.IsLine f)
    (rest : List UInt8) :
    readFields (encodeChars (fs.flatMap Response.fieldLine ++ Response.lineEnd) ++ rest) =
      some (fs, rest) := by
  induction fs with
  | nil => exact readFields_of_blank (takeLine_encodeChars List.not_mem_nil rest)
  | cons f fs ih =>
    obtain ⟨⟨⟨-, colon, name, -⟩, value, -⟩, later⟩ := List.forall_mem_cons.mp lines
    have unbroken : '\r' ∉ f.1.toList ++ ':' :: ' ' :: f.2.toList := by
      simp [name, value]
    have bytes : encodeChars ((f :: fs).flatMap Response.fieldLine ++ Response.lineEnd) ++ rest =
        encodeChars (f.1.toList ++ ':' :: ' ' :: f.2.toList ++ Response.lineEnd) ++
          (encodeChars (fs.flatMap Response.fieldLine ++ Response.lineEnd) ++ rest) := by
      simp [Response.fieldLine]
    rw [bytes]
    exact readFields_of_line (takeLine_encodeChars unbroken _) (field?_line colon) (ih later)

theorem isLine_of_sendable {r : Response} (sendable : r.IsSendable) :
    ∀ f ∈ r.wireFields, Response.IsLine f := by
  intro f mem
  simp only [Response.wireFields, List.mem_append, List.mem_cons, List.not_mem_nil, or_false] at mem
  rcases mem with (own | typed) | rfl | rfl
  · exact (sendable f own).1
  · unfold Response.defaultType at typed
    split at typed
    · cases typed
    · obtain rfl := List.mem_singleton.mp typed
      decide
  · unfold Response.connectionField
    cases r.keepAlive <;> decide
  · have digit : ∀ c ∈ (toString r.body.length).toList, c.isDigit = true := by
      rw [Ascii.toList_toString]
      exact Json.isDigit_natChars
    have clear (c : Char) (other : c.isDigit = false) : c ∉ (toString r.body.length).toList := by
      intro mem
      rw [digit c mem] at other
      cases other
    have name : Response.IsLine ("Content-Length", "") := by decide
    exact ⟨name.1, clear '\r' rfl, clear '\n' rfl⟩

/-- The length is found in the last field, there being no other of its name. -/
theorem bodyLength?_wireFields {r : Response} (sendable : r.IsSendable) :
    bodyLength? r.wireFields = some r.body.length := by
  have unnamed : ∀ f ∈ r.headers.entries ++ r.defaultType ++ [r.connectionField],
      ¬ Ascii.sameWord f.1 "content-length" = true := by
    intro f mem
    simp only [List.mem_append, List.mem_singleton] at mem
    rcases mem with (own | typed) | rfl
    · have lowered : Ascii.lower "content-length" = "content-length" := by decide
      rw [Ascii.sameWord_iff, lowered]
      exact (sendable f own).2
    · unfold Response.defaultType at typed
      split at typed
      · cases typed
      · obtain rfl := List.mem_singleton.mp typed
        decide
    · show ¬ Ascii.sameWord "Connection" "content-length" = true
      decide
  have parted : r.wireFields =
      r.headers.entries ++ r.defaultType ++ [r.connectionField] ++ [r.lengthField] := by
    simp [Response.wireFields]
  have found : (⟨r.wireFields⟩ : Headers).get? "content-length" = some r.lengthField.2 := by
    have named : Ascii.sameWord "Content-Length" "content-length" = true := by decide
    have last : [r.lengthField].find? (fun f => Ascii.sameWord f.1 "content-length") =
        some r.lengthField := List.find?_cons_of_pos named
    rw [Headers.get?, parted, List.find?_append, List.find?_eq_none.mpr unnamed, Option.none_or,
      last, Option.map_some]
  rw [bodyLength?, found]
  exact natural?_toString r.body.length

/-- What was sent is read back from the front of a stream, with what stands behind it left over. -/
theorem read?_wire {r : Response} (sendable : r.IsSendable) (rest : List UInt8) :
    read? (r.wire ++ rest) = some (r.message, rest) := by
  have unbroken : '\r' ∉ ("HTTP/1.1 " ++ r.status.line).toList := by
    cases r.status <;> decide +kernel
  have bytes : r.wire ++ rest =
      encodeChars (("HTTP/1.1 " ++ r.status.line).toList ++ Response.lineEnd) ++
        (encodeChars (r.wireFields.flatMap Response.fieldLine ++ Response.lineEnd) ++
          (r.body ++ rest)) := by
    simp [Response.wire, Response.statusLine]
  have message : r.message = ⟨r.status.code, r.wireFields, r.body⟩ := by
    rw [← Response.fields_message]
    rfl
  rw [read?, bytes, takeLine_encodeChars unbroken, message]
  simp only [Option.bind_eq_bind, Option.bind_some, code?_statusLine,
    readFields_of_isLine (isLine_of_sendable sendable), bodyLength?_wireFields sendable]
  rw [if_neg (by simp), List.take_left, List.drop_left]

/-- Responses that were sent one behind the other are read back as they were: each with its status,
with its own fields in order and behind them those that are written by rule, and with its body,
whatever bytes it holds. -/
theorem readAll_flatMap_wire {rs : List Response} (sendable : ∀ r ∈ rs, r.IsSendable) :
    readAll (rs.flatMap Response.wire) = some (rs.map Response.message) := by
  induction rs with
  | nil => rw [List.flatMap_nil, readAll, List.isEmpty_nil, if_pos rfl, List.map_nil]
  | cons r rs ih =>
    obtain ⟨here, later⟩ := List.forall_mem_cons.mp sendable
    have read := read?_wire here (rs.flatMap Response.wire)
    have nonempty : (r.wire ++ rs.flatMap Response.wire).isEmpty = false := by
      cases stream : r.wire ++ rs.flatMap Response.wire with
      | nil =>
        rw [stream] at read
        cases read
      | cons => rfl
    rw [List.flatMap_cons, readAll, nonempty, if_neg Bool.false_ne_true]
    split
    · next none => simp_all
    · next m rest some =>
      obtain ⟨rfl, rfl⟩ : r.message = m ∧ rs.flatMap Response.wire = rest := by simp_all
      rw [ih later, Option.map_some, List.map_cons]

section Case

/-- A page whose body looks like the end of a head and a response behind it. -/
def tricky : Response :=
  { status := .ok
    headers := ⟨[("X-Note", "a: b"), ("content-TYPE", "")]⟩
    body := Utf8.encode "\r\n\r\nHTTP/1.1 404 Not Found\r\n" }

def farewell : Response := { status := .noContent, keepAlive := false }

/-- Three responses are three messages, each with the fields that its body calls for. -/
theorem three_responses_read_back :
    let rs := [tricky, farewell, .ofText .created "é"]
    (∀ r ∈ rs, r.IsSendable) ∧
    readAll (rs.flatMap Response.wire) =
      some [⟨200, [("X-Note", "a: b"), ("content-TYPE", ""), ("Connection", "keep-alive"),
          ("Content-Length", "28")], tricky.body⟩,
        ⟨204, [("Connection", "close"), ("Content-Length", "0")], []⟩,
        ⟨201, [("Content-Type", "text/plain; charset=utf-8"), ("Connection", "keep-alive"),
          ("Content-Length", "2")], [0xC3, 0xA9]⟩] := by
  intro rs
  have sendable : ∀ r ∈ rs, r.IsSendable := by decide +kernel
  refine ⟨sendable, (readAll_flatMap_wire sendable).trans ?_⟩
  decide +kernel

end Case

end Message

end Turnstile
