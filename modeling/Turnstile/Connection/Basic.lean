import Turnstile.Connection.Frame
import Turnstile.Run

/-!
Connections. Each arrival of bytes is followed by at most one answer: to the request at the front of
the buffer if it is whole, or to bytes that cannot become one. The connection stays open as long as
its requests ask for that.
-/

namespace Turnstile

inductive Connection where
  | reading (peer : Peer) (buffer : List UInt8)
  | closed
  deriving DecidableEq, Repr

namespace Connection

/-- A connection that nothing has arrived on. -/
def accepted (peer : Peer) : Connection := .reading peer []

variable {σ : Type}

/-- What follows on an answer to a request. -/
def behind (peer : Peer) (r : Request) (rest : List UInt8) : Connection :=
  if r.isKeepAlive then .reading peer rest else .closed

/-- Bytes arrive; an arrival without bytes is the end of the stream, and requests still buffered are
not answered any more. -/
def receive (handle : Request → Run σ Response) (arrived : List UInt8) :
    Connection → Run σ (Option Response × Connection)
  | .closed => pure (none, .closed)
  | .reading peer buffer =>
    if arrived.isEmpty then pure (none, .closed)
    else
      let buffer := buffer ++ arrived
      if Frame.maxSize < buffer.length then pure (some Frame.tooLarge, .closed)
      else
        match Frame.ofBuffer peer buffer with
        | .partly => pure (none, .reading peer buffer)
        | .refused response => pure (some response, .closed)
        | .request r rest => do
          let response ← handle r
          return (some response, behind peer r rest)

@[simp] theorem receive_closed (handle : Request → Run σ Response) (arrived : List UInt8) :
    receive handle arrived .closed = pure (none, .closed) := rfl

/-- The answers to a sequence of arrivals, and the connection after them. -/
def serve (handle : Request → Run σ Response) :
    List (List UInt8) → Connection → Run σ (List Response × Connection)
  | [], c => pure ([], c)
  | arrived :: more, c => do
    let (answer, c) ← receive handle arrived c
    let (answers, c) ← serve handle more c
    return (answer.toList ++ answers, c)

end Connection

end Turnstile
