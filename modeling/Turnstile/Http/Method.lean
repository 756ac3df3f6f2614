namespace Turnstile

/-- The methods with a name of their own; any other token is custom. -/
inductive Method where
  | get
  | post
  | put
  | delete
  | head
  | options
  | patch
  | connect
  | trace
  | custom (token : String)
  deriving DecidableEq, Repr

namespace Method

def token : Method → String
  | .get => "GET"
  | .post => "POST"
  | .put => "PUT"
  | .delete => "DELETE"
  | .head => "HEAD"
  | .options => "OPTIONS"
  | .patch => "PATCH"
  | .connect => "CONNECT"
  | .trace => "TRACE"
  | .custom t => t

def named : List Method :=
  [.get, .post, .put, .delete, .head, .options, .patch, .connect, .trace]

def ofToken (t : String) : Method :=
  (named.find? fun m => m.token == t).getD (.custom t)

def isCustom : Method → Bool
  | .custom _ => true
  | _ => false

end Method

end Turnstile
