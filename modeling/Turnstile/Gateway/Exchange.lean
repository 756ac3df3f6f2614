import Turnstile.Http.Request
import Turnstile.Http.Response
import Turnstile.Identity.Caller
import Turnstile.Identity.Token
import Turnstile.Route.Router
import Turnstile.Run
import Turnstile.Slots

/-!
A request on its way through the stages of a gateway, and the stages themselves. A stage may answer
or hand the exchange on, and may change the answer that comes back.
-/

namespace Turnstile

/-- What stages leave for each other on an exchange. -/
inductive Note where
  /-- The outcome of looking at the bearer token. -/
  | token
  /-- The identity under which the request was counted. -/
  | caller
  deriving DecidableEq, Repr

/-- A token may turn out to carry no claims. -/
abbrev Note.Content : Note → Type
  | .token => Option Claims
  | .caller => Caller

structure Exchange where
  request : Request
  params : Params := []
  principal : Option Principal := none
  notes : Slots Note Note.Content := .empty

/-- How a gateway checks a token; the state may change with it. -/
abbrev TokenCheck (σ : Type) := String → Run σ (Except TokenError Claims)

/-- A check that leaves the state alone. -/
def TokenCheck.ofVerifier {σ : Type} (v : Token.Verifier) : TokenCheck σ := fun t => pure (v t)

/-- What answers an exchange. -/
abbrev Handler (σ : Type) := Exchange → Run σ Response

/-- A handler put in front of another one. -/
abbrev Stage (σ : Type) := Handler σ → Handler σ

namespace Exchange

def ofRequest (r : Request) : Exchange := { request := r }

/-- The claims of the request's bearer token, if it has one that is accepted. The first stage that
asks leaves the outcome on the exchange, and no stage checks the token again. -/
def claims {σ : Type} (check : TokenCheck σ) (x : Exchange) : Run σ (Option Claims × Exchange) :=
  match x.notes.get? .token with
  | some seen => pure (seen, x)
  | none => do
    let found : Option Claims ←
      match Token.bearer? x.request.headers with
      | none => pure none
      | some token => do
        match ← check token with
        | .ok c => pure (some c)
        | .error _ => pure none
    return (found, { x with notes := x.notes.insert .token found })

end Exchange

namespace Stage

/-- Attaches the principal that a verified token stands for, unless there is one already. -/
def authenticate {σ : Type} (check : TokenCheck σ) : Stage σ := fun next x =>
  match x.principal with
  | some _ => next x
  | none => do
    match ← x.claims check with
    | (some c, x) => next { x with principal := some (Principal.ofClaims c) }
    | (none, x) => next x

def chain {σ : Type} (stages : List (Stage σ)) (last : Handler σ) : Handler σ :=
  stages.foldr (fun stage next => stage next) last

end Stage

namespace Handler

/-- The answer when the last stage hands an exchange on. -/
def exhausted : Response :=
  Response.ofText .internalServerError "No response generated by middleware pipeline"

def unanswered {σ : Type} : Handler σ := fun _ => pure exhausted

/-- Leads an exchange to the handler of its route. -/
def route {σ : Type} (router : Router (Handler σ)) : Handler σ := fun x =>
  match router.find? x.request.method x.request.path with
  | some (handler, params) => handler { x with params := params }
  | none => pure (Router.notFound x.request.method x.request.path)

end Handler

end Turnstile
