import Turnstile.Http.Headers
import Turnstile.Http.Status
import Turnstile.Json.Printer
import Turnstile.Text.Utf8

/-!
Responses and their form on the wire. Three fields are written by rule and not by the maker of a
response: a content type for a body without one, the fate of the connection, and the length of the
body, which is always the last field.
-/

namespace Turnstile

structure Response where
  status : Status
  headers : Headers := .empty
  body : List UInt8 := []
  keepAlive : Bool := true
  deriving DecidableEq, Repr

namespace Response

def ofStatus (s : Status) : Response := { status := s }

def ofText (s : Status) (t : String) : Response := { status := s, body := Utf8.encode t }

def addHeader (r : Response) (name value : String) : Response :=
  { r with headers := r.headers.insert name value }

def addHeaders (r : Response) (more : List (String × String)) : Response :=
  { r with headers := r.headers.append more }

def ofJson (s : Status) (v : Json.Value) : Response :=
  (ofText s v.text).addHeader "Content-Type" "application/json"

/-- What stands in for a value that has no JSON text. -/
def unwritable : Response := ofText .internalServerError "Internal Server Error"

def isSuccess (r : Response) : Bool := r.status.isSuccess

def plainText : String × String := ("Content-Type", "text/plain; charset=utf-8")

/-- The content type of a body that has none. -/
def defaultType (r : Response) : List (String × String) :=
  if r.body.isEmpty || r.headers.contains "content-type" then [] else [plainText]

def connectionField (r : Response) : String × String :=
  ("Connection", if r.keepAlive then "keep-alive" else "close")

def lengthField (r : Response) : String × String := ("Content-Length", toString r.body.length)

/-- All fields in the order in which they are written. -/
def wireFields (r : Response) : List (String × String) :=
  r.headers.entries ++ r.defaultType ++ [r.connectionField, r.lengthField]

def lineEnd : List Char := ['\r', '\n']

def statusLine (s : Status) : List Char := ("HTTP/1.1 " ++ s.line).toList ++ lineEnd

def fieldLine (f : String × String) : List Char :=
  f.1.toList ++ ':' :: ' ' :: (f.2.toList ++ lineEnd)

def wire (r : Response) : List UInt8 :=
  Utf8.encodeChars (statusLine r.status ++ r.wireFields.flatMap fieldLine ++ lineEnd) ++ r.body

@[simp] theorem status_addHeaders (r : Response) (more : List (String × String)) :
    (r.addHeaders more).status = r.status := rfl

end Response

end Turnstile
