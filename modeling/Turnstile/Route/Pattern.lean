/-!
Patterns of request paths. One slash at the end of a pattern or a path does not count, except in
the path `/` itself.
-/

namespace Turnstile

inductive Segment where
  | static (text : List Char)
  | parameter (name : List Char)
  deriving DecidableEq, Repr

/-- `/quests` is exact, `/quests/:id` has parameters, `/auth/*` stands for a path and all below. -/
inductive Pattern where
  | exact (path : List Char)
  | segments (parts : List Segment)
  | below (base : List Char)
  deriving DecidableEq, Repr

/-- Values captured from a path; of several under one name the last counts. -/
abbrev Params := List (String × String)

def Params.get? (ps : Params) (name : String) : Option String :=
  (ps.reverse.find? fun p => p.1 == name).map (·.2)

namespace Pattern

def normalize (path : List Char) : List Char :=
  if path = ['/'] then path
  else if path.getLast? = some '/' then path.dropLast
  else path

/-- The parts of a path between slashes, empty ones left out. -/
def parts (path : List Char) : List (List Char) := (path.splitOn '/').filter (!·.isEmpty)

/-- A part that starts with a colon names a parameter. -/
def segmentOf : List Char → Segment
  | ':' :: name => .parameter name
  | text => .static text

/-- What is left of a text before a given end. -/
def beforeSuffix? (suffix text : List Char) : Option (List Char) :=
  if suffix.isSuffixOf text then some (text.take (text.length - suffix.length)) else none

def ofText (t : String) : Pattern :=
  let cs := normalize t.toList
  match beforeSuffix? ['/', '*'] cs with
  | some base => .below base
  | none => if cs.contains ':' then .segments ((parts cs).map segmentOf) else .exact cs

/-- The values that a list of parts gives to the parameters, if the static segments agree. -/
def capture : List Segment → List (List Char) → Option Params
  | [], [] => some []
  | .static text :: ss, p :: ps => if text = p then capture ss ps else none
  | .parameter name :: ss, p :: ps =>
    (capture ss ps).map ((String.ofList name, String.ofList p) :: ·)
  | _, _ => none

/-- The name under which the rest of a path below a base is captured. -/
def wildcardName : String := "wildcard"

def matchPath (p : Pattern) (path : String) : Option Params :=
  let cs := normalize path.toList
  match p with
  | .exact q => if q = cs then some [] else none
  | .segments ss => capture ss (parts cs)
  | .below base =>
    if base.isPrefixOf cs then
      let rest := cs.drop base.length
      if rest = [] ∨ rest.head? = some '/' then some [(wildcardName, String.ofList rest)] else none
    else none

def isMatch (p : Pattern) (path : String) : Bool := (p.matchPath path).isSome

end Pattern

end Turnstile
