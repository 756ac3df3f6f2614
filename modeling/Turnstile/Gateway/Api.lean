import Turnstile.Cache.Service
import Turnstile.Gateway.Challenge
import Turnstile.Gateway.Exchange
import Turnstile.Schema.Payload
import Turnstile.Schema.Report

namespace Turnstile

namespace Api

def refusal (s : Status) (message : String) : Response :=
  Response.ofJson s <| .object [("message", .string message), ("statusCode", .ofNat s.code)]

def unauthorized : Response := refusal .unauthorized "Unauthorized"

def forbidden : Response := refusal .forbidden "Forbidden resource"

/-- A success that has nothing but a message. -/
def success (message : String) : Response :=
  Response.ofJson .ok <| .object [("message", .string message)]

variable {σ : Type}

/-- Hands on what an authenticated caller asks, and refuses all else. -/
def callerOnly : Stage σ := fun next x =>
  match x.principal with
  | some _ => next x
  | none => pure unauthorized

/-- Hands on what an administrator asks, and refuses all else. -/
def adminOnly : Stage σ := fun next x =>
  match x.principal with
  | some p => if p.isAdmin then next x else pure forbidden
  | none => pure unauthorized

def health (o : Occasion) : Handler σ := fun _ =>
  pure <| Response.ofJson .ok <| .object
    [("status", .string "ok"), ("timestamp", .string o.stamp)]

/-- The lookups of one key of the cache, or of all. -/
def cacheStats (cache : Cache σ) : Handler σ := fun x => do
  match x.request.queryParam? "key" with
  | some key => return Response.ofJson .ok (← cache.stats key).toJson
  | none => return Response.ofJson .ok (← cache.allStats).toJson

def clearCache (cache : Cache σ) : Handler σ := fun _ => do
  match ← cache.clear with
  | .ok _ => return success "Cache cleared successfully"
  | .error _ => return refusal .internalServerError "Cache clear failed"

/-- Deletes the entries whose keys start with the pattern. -/
def clearPattern (cache : Cache σ) : Handler σ := fun x => do
  match (x.request.queryParam? "pattern").filter (!·.isEmpty) with
  | none => return refusal .badRequest "Pattern is required"
  | some pattern =>
    let deleted ← cache.deletePrefix pattern
    return Response.ofJson .ok <| .object
      [("deleted", .ofNat deleted),
        ("message", .string ("Cache pattern \"" ++ pattern ++ "\" cleared successfully"))]

def resetStats (cache : Cache σ) : Handler σ := fun _ => do
  cache.resetStats
  return success "Cache statistics reset successfully"

/-- The record of a proof that has been handed in. -/
def submission (o : Occasion) (p : SubmitProof) : Json.Value :=
  .object
    [("fileName", .string p.fileName), ("id", .string o.freshId), ("questId", .string p.questId),
      ("status", .string "PENDING"), ("submittedAt", .string o.stamp),
      ("userId", .string p.userId)]

/-- Answers a payload that is accepted, and reports what is wrong with any other. -/
def accepting {α : Type} (payload : Payload α) (o : Occasion) (respond : α → Response) :
    Handler σ := fun x =>
  match payload.accept x.request.body with
  | .ok a => pure (respond a)
  | .error failures => pure (failures.toResponse o.stamp x.request.path)

def submitProof (o : Occasion) : Handler σ :=
  accepting SubmitProof.payload o fun p => Response.ofJson .created (submission o p)

def issueChallenge (o : Occasion) : Handler σ :=
  accepting ChallengeRequest.payload o fun c =>
    Response.ofJson .ok (Challenge.mk c.stellarAddress o.time).toJson

def router (cache : Cache σ) (o : Occasion) : Router (Handler σ) :=
  Router.empty
    |>.add .get "/health" (health o)
    |>.add .get "/cache/stats" (callerOnly (cacheStats cache))
    |>.add .delete "/cache/clear" (adminOnly (clearCache cache))
    |>.add .delete "/cache/clear-pattern" (adminOnly (clearPattern cache))
    |>.add .delete "/cache/reset-stats" (adminOnly (resetStats cache))
    |>.add .post "/submissions" (callerOnly (submitProof o))
    |>.add .post "/auth/challenge" (issueChallenge o)

end Api

end Turnstile
