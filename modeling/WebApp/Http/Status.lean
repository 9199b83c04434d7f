/-!
# Response status codes
-/

namespace WebApp

/-- The status codes that a response can have. -/
inductive Status where
  | continueRequest
  | switchingProtocols
  | ok
  | created
  | accepted
  | noContent
  | partialContent
  | movedPermanently
  | found
  | seeOther
  | notModified
  | temporaryRedirect
  | permanentRedirect
  | badRequest
  | unauthorized
  | paymentRequired
  | forbidden
  | notFound
  | methodNotAllowed
  | notAcceptable
  | requestTimeout
  | conflict
  | gone
  | lengthRequired
  | preconditionFailed
  | payloadTooLarge
  | uriTooLong
  | unsupportedMediaType
  | imATeapot
  | unprocessableEntity
  | tooManyRequests
  | internalServerError
  | notImplemented
  | badGateway
  | serviceUnavailable
  | gatewayTimeout
  | httpVersionNotSupported
deriving DecidableEq, Inhabited, Repr

namespace Status

/-- All status codes, the lowest first. -/
def all : List Status := [
  .continueRequest, .switchingProtocols, .ok, .created, .accepted, .noContent,
  .partialContent, .movedPermanently, .found, .seeOther, .notModified, .temporaryRedirect,
  .permanentRedirect, .badRequest, .unauthorized, .paymentRequired, .forbidden, .notFound,
  .methodNotAllowed, .notAcceptable, .requestTimeout, .conflict, .gone, .lengthRequired,
  .preconditionFailed, .payloadTooLarge, .uriTooLong, .unsupportedMediaType, .imATeapot,
  .unprocessableEntity, .tooManyRequests, .internalServerError, .notImplemented, .badGateway,
  .serviceUnavailable, .gatewayTimeout, .httpVersionNotSupported]

def code : Status → Nat
  | .continueRequest => 100
  | .switchingProtocols => 101
  | .ok => 200
  | .created => 201
  | .accepted => 202
  | .noContent => 204
  | .partialContent => 206
  | .movedPermanently => 301
  | .found => 302
  | .seeOther => 303
  | .notModified => 304
  | .temporaryRedirect => 307
  | .permanentRedirect => 308
  | .badRequest => 400
  | .unauthorized => 401
  | .paymentRequired => 402
  | .forbidden => 403
  | .notFound => 404
  | .methodNotAllowed => 405
  | .notAcceptable => 406
  | .requestTimeout => 408
  | .conflict => 409
  | .gone => 410
  | .lengthRequired => 411
  | .preconditionFailed => 412
  | .payloadTooLarge => 413
  | .uriTooLong => 414
  | .unsupportedMediaType => 415
  | .imATeapot => 418
  | .unprocessableEntity => 422
  | .tooManyRequests => 429
  | .internalServerError => 500
  | .notImplemented => 501
  | .badGateway => 502
  | .serviceUnavailable => 503
  | .gatewayTimeout => 504
  | .httpVersionNotSupported => 505

/-- The phrase that goes with the number. -/
def reason : Status → String
  | .continueRequest => "Continue"
  | .switchingProtocols => "Switching Protocols"
  | .ok => "OK"
  | .created => "Created"
  | .accepted => "Accepted"
  | .noContent => "No Content"
  | .partialContent => "Partial Content"
  | .movedPermanently => "Moved Permanently"
  | .found => "Found"
  | .seeOther => "See Other"
  | .notModified => "Not Modified"
  | .temporaryRedirect => "Temporary Redirect"
  | .permanentRedirect => "Permanent Redirect"
  | .badRequest => "Bad Request"
  | .unauthorized => "Unauthorized"
  | .paymentRequired => "Payment Required"
  | .forbidden => "Forbidden"
  | .notFound => "Not Found"
  | .methodNotAllowed => "Method Not Allowed"
  | .notAcceptable => "Not Acceptable"
  | .requestTimeout => "Request Timeout"
  | .conflict => "Conflict"
  | .gone => "Gone"
  | .lengthRequired => "Length Required"
  | .preconditionFailed => "Precondition Failed"
  | .payloadTooLarge => "Payload Too Large"
  | .uriTooLong => "URI Too Long"
  | .unsupportedMediaType => "Unsupported Media Type"
  | .imATeapot => "I'm a teapot"
  | .unprocessableEntity => "Unprocessable Entity"
  | .tooManyRequests => "Too Many Requests"
  | .internalServerError => "Internal Server Error"
  | .notImplemented => "Not Implemented"
  | .badGateway => "Bad Gateway"
  | .serviceUnavailable => "Service Unavailable"
  | .gatewayTimeout => "Gateway Timeout"
  | .httpVersionNotSupported => "HTTP Version Not Supported"

/-- The status code as it is shown inside a message about a program's data. -/
def shown : Status → String
  | .continueRequest => "Continue"
  | .switchingProtocols => "SwitchingProtocols"
  | .ok => "Ok"
  | .created => "Created"
  | .accepted => "Accepted"
  | .noContent => "NoContent"
  | .partialContent => "PartialContent"
  | .movedPermanently => "MovedPermanently"
  | .found => "Found"
  | .seeOther => "SeeOther"
  | .notModified => "NotModified"
  | .temporaryRedirect => "TemporaryRedirect"
  | .permanentRedirect => "PermanentRedirect"
  | .badRequest => "BadRequest"
  | .unauthorized => "Unauthorized"
  | .paymentRequired => "PaymentRequired"
  | .forbidden => "Forbidden"
  | .notFound => "NotFound"
  | .methodNotAllowed => "MethodNotAllowed"
  | .notAcceptable => "NotAcceptable"
  | .requestTimeout => "RequestTimeout"
  | .conflict => "Conflict"
  | .gone => "Gone"
  | .lengthRequired => "LengthRequired"
  | .preconditionFailed => "PreconditionFailed"
  | .payloadTooLarge => "PayloadTooLarge"
  | .uriTooLong => "UriTooLong"
  | .unsupportedMediaType => "UnsupportedMediaType"
  | .imATeapot => "ImATeapot"
  | .unprocessableEntity => "UnprocessableEntity"
  | .tooManyRequests => "TooManyRequests"
  | .internalServerError => "InternalServerError"
  | .notImplemented => "NotImplemented"
  | .badGateway => "BadGateway"
  | .serviceUnavailable => "ServiceUnavailable"
  | .gatewayTimeout => "GatewayTimeout"
  | .httpVersionNotSupported => "HttpVersionNotSupported"

def ofCode? (n : Nat) : Option Status :=
  all.find? (·.code == n)

/-- Number and phrase. -/
def text (s : Status) : String :=
  toString s.code ++ " " ++ s.reason

/-- The request was carried out. -/
def isSuccess (s : Status) : Bool :=
  200 ≤ s.code && s.code < 300

/-- The request or the server is at fault. -/
def isError (s : Status) : Bool :=
  400 ≤ s.code

end Status

end WebApp
