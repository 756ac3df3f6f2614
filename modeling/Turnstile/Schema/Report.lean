import Turnstile.Http.Response
import Turnstile.Schema.Failures

namespace Turnstile

/-- The failures as the body of a response to a request for a path. -/
def Failures.toResponse (f : Failures) (timestamp path : String) : Response :=
  Response.ofJson .badRequest <| .object
    [("errors", f.toJson), ("message", .string "Validation failed"), ("path", .string path),
      ("statusCode", .ofNat 400), ("timestamp", .string timestamp)]

end Turnstile
