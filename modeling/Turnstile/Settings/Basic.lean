import Turnstile.Settings.RateLimits
import Turnstile.Text.Quoted

namespace Turnstile

structure Settings where
  host : String
  port : Nat
  /-- The secret that tokens are signed with. -/
  secret : String
  /-- How long a cache entry lives that is given no time of its own. -/
  cacheTtl : Nat
  origins : List String
  rateLimits : RateLimits
  deriving DecidableEq, Repr

inductive SettingsError where
  | missing (name : String)
  | invalid (name value : String)
  deriving DecidableEq, Repr

def SettingsError.message : SettingsError → String
  | .missing name => "required environment variable " ++ name ++ " is not set"
  | .invalid name value =>
    "environment variable " ++ name ++ " has invalid value " ++ Text.quoted value

namespace Settings

def standardHost : String := "0.0.0.0"

def standardPort : Nat := 3001

def standardOrigins : List String := ["http://localhost:3000"]

def portBound : Nat := Nat.pow 2 16

def portIn (env : Environment) : Except SettingsError Nat :=
  match env.value? "PORT" with
  | none => .ok standardPort
  | some t =>
    match Ascii.natBelow? portBound t with
    | some n => .ok n
    | none => .error (.invalid "PORT" t)

def secretIn (env : Environment) : Except SettingsError String :=
  match env.value? "JWT_SECRET" with
  | some t => .ok t
  | none => .error (.missing "JWT_SECRET")

/-- The names between commas, without blanks, empty ones left out. -/
def names (t : String) : List String :=
  (t.toList.splitOn ',').filterMap fun cs => Text.nonBlank? (String.ofList cs)

/-- The settings, or the first thing that is wrong with them: the port is looked at before the
secret. -/
def ofEnvironment (env : Environment) : Except SettingsError Settings := do
  let port ← portIn env
  let secret ← secretIn env
  return {
    host := (env.value? "HOST").getD standardHost
    port
    secret
    cacheTtl := (Environment.number (env.value? "CACHE_TTL") (RateLimits.number 300)).toDuration
    origins := ((env.value? "CORS_ORIGINS").map names).getD standardOrigins
    rateLimits := RateLimits.ofEnvironment env }

def address (s : Settings) : String := s.host ++ ":" ++ toString s.port

end Settings

end Turnstile
