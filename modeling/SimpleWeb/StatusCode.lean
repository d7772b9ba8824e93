/-
**Status codes.**

A model of `common/status_code.hpp`.  `StatusCode` is an enumeration over `int`: besides its
enumerators it has every other value of the type, which a `static_cast` can produce.

Main definitions:

* `SimpleWeb.StatusCode` — the enumeration;
* `SimpleWeb.statusCodeStrings`, `SimpleWeb.statusCode` — the string of a status code.

Main results:

* `SimpleWeb.crlf_not_mem_statusCode` — the string of a status code is on one line;
* `SimpleWeb.eq_of_prefix_statusCode` — what begins with 101 stands for switching protocols.
-/

import SimpleWeb.Message

set_option relaxedAutoImplicit false
set_option autoImplicit false

namespace SimpleWeb

/-- The numbers of the enumerators. -/
def enumerated : List ℕ := [
    0, 100, 101, 102, 200, 201, 202, 203, 204, 205, 206, 207, 208, 226,
    300, 301, 302, 303, 304, 305, 306, 307, 308, 400, 401, 402, 403, 404,
    405, 406, 407, 408, 409, 410, 411, 412, 413, 414, 415, 416, 417, 418,
    421, 422, 423, 424, 426, 428, 429, 431, 451, 500, 501, 502, 503, 504,
    505, 506, 507, 508, 510, 511]

/-- `StatusCode`; `other` is a value without an enumerator. -/
inductive StatusCode
  | unknown
  | informationContinue
  | informationSwitchingProtocols
  | informationProcessing
  | successOk
  | successCreated
  | successAccepted
  | successNonAuthoritativeInformation
  | successNoContent
  | successResetContent
  | successPartialContent
  | successMultiStatus
  | successAlreadyReported
  | successImUsed
  | redirectionMultipleChoices
  | redirectionMovedPermanently
  | redirectionFound
  | redirectionSeeOther
  | redirectionNotModified
  | redirectionUseProxy
  | redirectionSwitchProxy
  | redirectionTemporaryRedirect
  | redirectionPermanentRedirect
  | clientErrorBadRequest
  | clientErrorUnauthorized
  | clientErrorPaymentRequired
  | clientErrorForbidden
  | clientErrorNotFound
  | clientErrorMethodNotAllowed
  | clientErrorNotAcceptable
  | clientErrorProxyAuthenticationRequired
  | clientErrorRequestTimeout
  | clientErrorConflict
  | clientErrorGone
  | clientErrorLengthRequired
  | clientErrorPreconditionFailed
  | clientErrorPayloadTooLarge
  | clientErrorUriTooLong
  | clientErrorUnsupportedMediaType
  | clientErrorRangeNotSatisfiable
  | clientErrorExpectationFailed
  | clientErrorImATeapot
  | clientErrorMisdirectionRequired
  | clientErrorUnprocessableEntity
  | clientErrorLocked
  | clientErrorFailedDependency
  | clientErrorUpgradeRequired
  | clientErrorPreconditionRequired
  | clientErrorTooManyRequests
  | clientErrorRequestHeaderFieldsTooLarge
  | clientErrorUnavailableForLegalReasons
  | serverErrorInternalServerError
  | serverErrorNotImplemented
  | serverErrorBadGateway
  | serverErrorServiceUnavailable
  | serverErrorGatewayTimeout
  | serverErrorHttpVersionNotSupported
  | serverErrorVariantAlsoNegotiates
  | serverErrorInsufficientStorage
  | serverErrorLoopDetected
  | serverErrorNotExtended
  | serverErrorNetworkAuthenticationRequired
  | other (value : ℤ) (unlisted : ∀ n ∈ enumerated, value ≠ (n : ℤ))
  deriving DecidableEq

/-- `status_code_strings`. -/
def statusCodeStrings : List (StatusCode × Bytes) := [
    (.unknown, ascii ""),
    (.informationContinue, ascii "100 Continue"),
    (.informationSwitchingProtocols, ascii "101 Switching Protocols"),
    (.informationProcessing, ascii "102 Processing"),
    (.successOk, ascii "200 OK"),
    (.successCreated, ascii "201 Created"),
    (.successAccepted, ascii "202 Accepted"),
    (.successNonAuthoritativeInformation, ascii "203 Non-Authoritative Information"),
    (.successNoContent, ascii "204 No Content"),
    (.successResetContent, ascii "205 Reset Content"),
    (.successPartialContent, ascii "206 Partial Content"),
    (.successMultiStatus, ascii "207 Multi-Status"),
    (.successAlreadyReported, ascii "208 Already Reported"),
    (.successImUsed, ascii "226 IM Used"),
    (.redirectionMultipleChoices, ascii "300 Multiple Choices"),
    (.redirectionMovedPermanently, ascii "301 Moved Permanently"),
    (.redirectionFound, ascii "302 Found"),
    (.redirectionSeeOther, ascii "303 See Other"),
    (.redirectionNotModified, ascii "304 Not Modified"),
    (.redirectionUseProxy, ascii "305 Use Proxy"),
    (.redirectionSwitchProxy, ascii "306 Switch Proxy"),
    (.redirectionTemporaryRedirect, ascii "307 Temporary Redirect"),
    (.redirectionPermanentRedirect, ascii "308 Permanent Redirect"),
    (.clientErrorBadRequest, ascii "400 Bad Request"),
    (.clientErrorUnauthorized, ascii "401 Unauthorized"),
    (.clientErrorPaymentRequired, ascii "402 Payment Required"),
    (.clientErrorForbidden, ascii "403 Forbidden"),
    (.clientErrorNotFound, ascii "404 Not Found"),
    (.clientErrorMethodNotAllowed, ascii "405 Method Not Allowed"),
    (.clientErrorNotAcceptable, ascii "406 Not Acceptable"),
    (.clientErrorProxyAuthenticationRequired, ascii "407 Proxy Authentication Required"),
    (.clientErrorRequestTimeout, ascii "408 Request Timeout"),
    (.clientErrorConflict, ascii "409 Conflict"),
    (.clientErrorGone, ascii "410 Gone"),
    (.clientErrorLengthRequired, ascii "411 Length Required"),
    (.clientErrorPreconditionFailed, ascii "412 Precondition Failed"),
    (.clientErrorPayloadTooLarge, ascii "413 Payload Too Large"),
    (.clientErrorUriTooLong, ascii "414 URI Too Long"),
    (.clientErrorUnsupportedMediaType, ascii "415 Unsupported Media Type"),
    (.clientErrorRangeNotSatisfiable, ascii "416 Range Not Satisfiable"),
    (.clientErrorExpectationFailed, ascii "417 Expectation Failed"),
    (.clientErrorImATeapot, ascii "418 I'm a teapot"),
    (.clientErrorMisdirectionRequired, ascii "421 Misdirected Request"),
    (.clientErrorUnprocessableEntity, ascii "422 Unprocessable Entity"),
    (.clientErrorLocked, ascii "423 Locked"),
    (.clientErrorFailedDependency, ascii "424 Failed Dependency"),
    (.clientErrorUpgradeRequired, ascii "426 Upgrade Required"),
    (.clientErrorPreconditionRequired, ascii "428 Precondition Required"),
    (.clientErrorTooManyRequests, ascii "429 Too Many Requests"),
    (.clientErrorRequestHeaderFieldsTooLarge, ascii "431 Request Header Fields Too Large"),
    (.clientErrorUnavailableForLegalReasons, ascii "451 Unavailable For Legal Reasons"),
    (.serverErrorInternalServerError, ascii "500 Internal Server Error"),
    (.serverErrorNotImplemented, ascii "501 Not Implemented"),
    (.serverErrorBadGateway, ascii "502 Bad Gateway"),
    (.serverErrorServiceUnavailable, ascii "503 Service Unavailable"),
    (.serverErrorGatewayTimeout, ascii "504 Gateway Timeout"),
    (.serverErrorHttpVersionNotSupported, ascii "505 HTTP Version Not Supported"),
    (.serverErrorVariantAlsoNegotiates, ascii "506 Variant Also Negotiates"),
    (.serverErrorInsufficientStorage, ascii "507 Insufficient Storage"),
    (.serverErrorLoopDetected, ascii "508 Loop Detected"),
    (.serverErrorNotExtended, ascii "510 Not Extended"),
    (.serverErrorNetworkAuthenticationRequired, ascii "511 Network Authentication Required")]

/-- `status_code`: the string of a status code, empty where there is none. -/
def statusCode (statusCodeEnum : StatusCode) : Bytes :=
  ((statusCodeStrings.find? fun p => p.1 = statusCodeEnum).map (·.2)).getD []

/-- A status code has a string of the table, or an empty one. -/
theorem statusCode_cases (s : StatusCode) :
    statusCode s = [] ∨ (s, statusCode s) ∈ statusCodeStrings := by
  unfold statusCode
  cases h : statusCodeStrings.find? fun p => p.1 = s with
  | none => exact Or.inl rfl
  | some p =>
      obtain rfl : p.1 = s := by simpa using List.find?_some h
      exact Or.inr (List.mem_of_find?_eq_some h)

/-- What is in the table: strings on one line, and 101 only once. -/
theorem mem_statusCodeStrings : ∀ p ∈ statusCodeStrings, (13 ∉ p.2 ∧ 10 ∉ p.2) ∧
    (ascii "101 " <+: p.2 → p.1 = .informationSwitchingProtocols) := by
  decide +kernel

/-- The string of a status code is on one line. -/
theorem crlf_not_mem_statusCode (s : StatusCode) : 13 ∉ statusCode s ∧ 10 ∉ statusCode s := by
  rcases statusCode_cases s with h | h
  · simp [h]
  · exact (mem_statusCodeStrings _ h).1

/-- What begins with 101 stands for switching protocols. -/
theorem eq_of_prefix_statusCode {s : StatusCode} (h : ascii "101 " <+: statusCode s) :
    s = .informationSwitchingProtocols := by
  rcases statusCode_cases s with hs | hs
  · rw [hs, List.prefix_nil] at h
    cases h
  · exact (mem_statusCodeStrings _ hs).2 h

end SimpleWeb
