import Std.Time.DateTime.Timestamp
import Turnstile.Connection.Basic
import Turnstile.Gateway.Basic
import Turnstile.Schedule

/-!
The program: the gateway on one connection. Settings come from the environment, the bytes of the
connection from standard input, and answers go to standard output.
-/

namespace Turnstile.Program

def variableNames : List String :=
  ["HOST", "PORT", "JWT_SECRET", "CACHE_TTL", "CORS_ORIGINS", "RATE_LIMIT_LIMIT",
    "RATE_LIMIT_MAX", "RATE_LIMIT_TTL", "RATE_LIMIT_AUTH_LIMIT", "RATE_LIMIT_AUTH_TTL"]

def readEnvironment : IO Environment := do
  let values ← variableNames.mapM fun name => do return (name, ← IO.getEnv name)
  return fun name => (values.lookup name).join

def occasion : IO Occasion := do
  let time ← Std.Time.Timestamp.now
  let random ← IO.getRandomBytes 16
  return ⟨time.toMillisecondsSinceUnixEpoch.val.toNat, Occasion.identifier random.toList⟩

/-- Every minute lapsed counters and expired entries are dropped. -/
def cleanups (start : Nat) : Schedule := ⟨start, 60 * Clock.second⟩

/-- The memory at a later instant. -/
def forward (start now : Nat) (m : Gateway.Memory) : Gateway.Memory :=
  let later := { m with now }
  if ((cleanups start).due? m.now now).isSome then later.cleanup else later

def readSize : USize := 4096

/-- Serves the connection until it is closed or a request overruns the clock. -/
partial def serve (s : Settings) (start : Nat) (input output : IO.FS.Stream)
    (m : Gateway.Memory) : Connection → IO Unit
  | .closed => return ()
  | c => do
    let arrived ← input.read readSize
    let o ← occasion
    let m := forward start (← IO.monoNanosNow) m
    let verifier := Token.verify (Utf8.encode s.secret) (o.time / 1000)
    let handle := (Gateway.inMemory s verifier).answer o
    match c.receive handle arrived.toList m with
    | (.ok (answer, c), m) =>
      if let some r := answer then
        output.write ⟨r.wire.toArray⟩
        output.flush
      serve s start input output m c
    | (.error e, _) => IO.eprintln e.message

end Turnstile.Program

open Turnstile Program in
def main : IO UInt32 := do
  match Settings.ofEnvironment (← readEnvironment) with
  | .error e =>
    IO.eprintln e.message
    return 1
  | .ok s =>
    let start ← IO.monoNanosNow
    let m := { Gateway.Memory.empty with now := start }
    serve s start (← IO.getStdin) (← IO.getStdout) m (.accepted ⟨.loopback, 0⟩)
    return 0
