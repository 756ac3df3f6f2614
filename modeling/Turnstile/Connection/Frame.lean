import Turnstile.Gateway.Api
import Turnstile.Http.Head

/-!
Framing: what stands at the front of the bytes that a connection has buffered. A request is framed
by its head and as many bytes of body as it declares; a head that declares nothing readable has no
body.
-/

namespace Turnstile

/-- The front of a buffer: a whole request and the bytes behind it, a part of one, or something
that no request can come from. -/
inductive Frame where
  | request (r : Request) (rest : List UInt8)
  | partly
  | refused (response : Response)
  deriving DecidableEq, Repr

namespace Frame

/-- Eight mebibytes: the most that a request with its head may have, and a buffer too. -/
def maxSize : Nat := 8 * 1024 * 1024

/-- A refusal after which the connection is closed. -/
def refusal (s : Status) (message : String) : Response :=
  { Api.refusal s message with keepAlive := false }

def tooLarge : Response := refusal .payloadTooLarge "Request entity too large"

def badRequest (fault : HeadFault) : Response :=
  refusal .badRequest ("Bad Request: " ++ (RequestError.malformed fault).message)

/-- The front of a buffer whose head has been read, with the bytes behind the head. A request that
would be too large is refused before its body arrives. -/
def ofHead (peer : Peer) (head : Head) (headSize : Nat) (rest : List UInt8) : Frame :=
  let size := head.contentLength?.getD 0
  if maxSize < headSize + size then .refused tooLarge
  else if rest.length < size then .partly
  else .request { toHead := head, body := rest.take size, peer := some peer } (rest.drop size)

def ofBuffer (peer : Peer) (buffer : List UInt8) : Frame :=
  match Head.read buffer with
  | .incomplete => .partly
  | .invalid fault => .refused (badRequest fault)
  | .done head rest => ofHead peer head (buffer.length - rest.length) rest

end Frame

end Turnstile
