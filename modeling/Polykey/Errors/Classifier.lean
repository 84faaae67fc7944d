/-
# From an error to a status

`internal/errors`: `ErrorClassifier` goes through `classificationRules` and takes the first rule
whose sentinel the error wraps; class and message of that rule are all that is left of the error
when it becomes a gRPC status.  An error that no rule knows is internal.

The operation and the text of the error go to the log, and so would the key id and the metadata of a
`ClassifiedError`, which nobody sets.  They are left out.
-/
import Polykey.Domain.Types

namespace Polykey

/-! ## 1. Classes and codes -/

/-- `errors.ErrorClass`. -/
inductive ErrorClass
  | internal
  | validation
  | authentication
  | authorization
  | notFound
  | conflict
  | rateLimit
  | external
  | failedPrecondition
  deriving DecidableEq, Repr

/-- The codes of `google.golang.org/grpc/codes` that the service answers with. -/
inductive Code
  | invalidArgument
  | notFound
  | alreadyExists
  | permissionDenied
  | resourceExhausted
  | failedPrecondition
  | internal
  | unavailable
  | unauthenticated
  deriving DecidableEq, Repr

/-- `status.Error(code, message)`. -/
structure Status where
  code : Code
  message : String
  deriving DecidableEq, Repr

/-! ## 2. Rules -/

/-- An entry of `classificationRules`. -/
structure ClassificationRule where
  targetErr : Sentinel
  errorClass : ErrorClass
  clientMessage : String
  deriving DecidableEq, Repr

def classificationRules : List ClassificationRule :=
  [⟨.errKeyNotFound, .notFound, "The requested resource was not found"⟩,
    ⟨.errInvalidInput, .validation, "The request contains invalid parameters"⟩,
    ⟨.errKMSFailure, .internal, "An internal error occurred. Please try again later"⟩,
    ⟨.errAuthentication, .authentication, "Authentication failed"⟩,
    ⟨.errAuthorization, .authorization, "Permission denied"⟩,
    ⟨.errConflict, .conflict, "A conflict occurred"⟩,
    ⟨.errRateLimit, .rateLimit, "You have exceeded the rate limit"⟩,
    ⟨.errExternal, .external, "External service temporarily unavailable"⟩,
    ⟨.errKeyRevoked, .failedPrecondition,
      "The operation cannot be completed because the key is revoked"⟩]

/-- The first rule that matches. -/
def Err.rule (e : Err) : Option ClassificationRule :=
  classificationRules.find? fun rule => e.is rule.targetErr

/-- What a `ClassifiedError` says to the client. -/
structure ClassifiedError where
  errorClass : ErrorClass
  clientMessage : String
  deriving DecidableEq, Repr

/-- `ErrorClassifier.Classify`. -/
def classify (e : Err) : ClassifiedError :=
  match e.rule with
  | some rule => ⟨rule.errorClass, rule.clientMessage⟩
  | none => ⟨.internal, "An unexpected internal error occurred"⟩

def grpcCodeMap : ErrorClass → Option Code
  | .notFound => some .notFound
  | .validation => some .invalidArgument
  | .authentication => some .unauthenticated
  | .authorization => some .permissionDenied
  | .rateLimit => some .resourceExhausted
  | .conflict => some .alreadyExists
  | .external => some .unavailable
  | .internal => some .internal
  | .failedPrecondition => some .failedPrecondition

/-- `ErrorClassifier.toGRPCError`. -/
def toGRPCError (classified : ClassifiedError) : Status :=
  ⟨(grpcCodeMap classified.errorClass).getD .internal, classified.clientMessage⟩

/-- `PolykeyService.sanitizeError`: `Classify`, then `LogAndSanitize`. -/
def sanitizeError (e : Err) : Status := toGRPCError (classify e)

/-! ## 3. What is left of an error -/

/-- **A status depends on the class of its error only.** -/
theorem sanitizeError_congr {e e' : Err} (h : e.rule = e'.rule) :
    sanitizeError e = sanitizeError e' := by
  rw [sanitizeError, sanitizeError, classify, classify, h]

/-- What is written around an error does not change its class. -/
@[simp] theorem Err.rule_wrap (pre : String) (e : Err) : (e.wrap pre).rule = e.rule := rfl

end Polykey
