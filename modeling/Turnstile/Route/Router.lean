import Turnstile.Http.Request
import Turnstile.Http.Response
import Turnstile.Route.Pattern

namespace Turnstile

structure Route (α : Type) where
  method : Method
  pattern : Pattern
  target : α

structure Router (α : Type) where
  routes : List (Route α)

namespace Router

def empty {α : Type} : Router α := ⟨[]⟩

def add {α : Type} (r : Router α) (method : Method) (pattern : String) (target : α) : Router α :=
  ⟨r.routes ++ [⟨method, Pattern.ofText pattern, target⟩]⟩

def size {α : Type} (r : Router α) : Nat := r.routes.length

/-- Where a method and a path lead, with the captures from the path. -/
def find? {α : Type} (r : Router α) (method : Method) (path : String) : Option (α × Params) :=
  r.routes.findSome? fun route =>
    if route.method = method then
      (route.pattern.matchPath path).map (route.target, ·)
    else none

def notFound (method : Method) (path : String) : Response :=
  Response.ofJson .notFound <| .object
    [("message", .string ("Cannot " ++ method.token ++ " " ++ path)), ("statusCode", .ofNat 404)]

end Router

end Turnstile
