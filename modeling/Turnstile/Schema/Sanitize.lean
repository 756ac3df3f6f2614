import Turnstile.Json.Value
import Turnstile.Text.Ascii
import Turnstile.Text.Blank

/-!
Cleaning of texts: control characters and tags are taken out, the five basic entities are decoded,
and blanks are trimmed, in this order.
-/

namespace Turnstile.Sanitize

/-- Control characters of ASCII other than tab, line feed and carriage return. -/
def isStray (c : Char) : Bool :=
  Ascii.isControl c && c != '\t' && c != '\n' && c != '\r'

/-- What follows the first `>`. -/
def afterClose? : List Char → Option (List Char)
  | [] => none
  | c :: s => if c = '>' then some s else afterClose? s

theorem length_lt_of_afterClose? {s r : List Char} (h : afterClose? s = some r) :
    r.length < s.length := by
  induction s with
  | nil => simp [afterClose?] at h
  | cons c s ih =>
    rw [afterClose?] at h
    split at h
    · simp only [Option.some.injEq] at h
      simp [h]
    · have := ih h
      simp only [List.length_cons]
      omega

/-- Takes out every `<` with all up to the next `>`. A `<` with no `>` behind it stays. -/
def stripTags : List Char → List Char
  | [] => []
  | c :: s =>
    if c = '<' then
      match _h : afterClose? s with
      | some r => stripTags r
      | none => c :: stripTags s
    else c :: stripTags s
termination_by s => s.length
decreasing_by
  · have := length_lt_of_afterClose? _h
    simp only [List.length_cons]
    omega
  · simp
  · simp

structure Entity where
  name : List Char
  char : Char
  deriving DecidableEq, Repr

/-- Writes the character for every occurrence of the entity, from left to right. -/
def Entity.decode (e : Entity) : List Char → List Char
  | [] => []
  | c :: s =>
    if c = '&' ∧ e.name.isPrefixOf s then e.char :: e.decode (s.drop e.name.length)
    else c :: e.decode s
termination_by s => s.length
decreasing_by
  · simp only [List.length_drop, List.length_cons]; omega
  · simp

/-- The five entities in the order in which they are decoded. -/
def entities : List Entity :=
  [⟨"lt;".toList, '<'⟩, ⟨"gt;".toList, '>'⟩, ⟨"amp;".toList, '&'⟩, ⟨"quot;".toList, '"'⟩,
    ⟨"#x27;".toList, '\''⟩]

def decodeEntities (s : List Char) : List Char := entities.foldl (fun s e => e.decode s) s

/-- The entity of a character, or the character itself. -/
def escapeChar (c : Char) : List Char :=
  match entities.find? (fun e => e.char = c) with
  | some e => '&' :: e.name
  | none => [c]

/-- A text with the five characters written as entities, all at once. -/
def escape (s : List Char) : List Char := s.flatMap escapeChar

def clean (s : List Char) : List Char :=
  Text.trimChars (decodeEntities (stripTags (s.filter (!isStray ·))))

def text (t : String) : String := String.ofList (clean t.toList)

end Turnstile.Sanitize

namespace Turnstile.Json

mutual

/-- The value with all its texts cleaned; the keys of objects stay. -/
def Value.sanitize : Value → Value
  | .string s => .string (Sanitize.text s)
  | .array items => .array (sanitizeItems items)
  | .object members => .object (sanitizeMembers members)
  | v => v

def sanitizeItems : List Value → List Value
  | [] => []
  | v :: vs => v.sanitize :: sanitizeItems vs

def sanitizeMembers : List (String × Value) → List (String × Value)
  | [] => []
  | (k, v) :: ms => (k, v.sanitize) :: sanitizeMembers ms

end

end Turnstile.Json
