import CompletionCheck.IoKind
import CompletionCheck.Notice
import CompletionCheck.Text.Quoted
import CompletionCheck.Time.Duration

/-!
# Failures to talk to a completion service

These are failures of the conversation and not answers: a service that answers with an error of
its own has answered.  The cause of a failure is kept as data; the wording follows from it.
-/

namespace CompletionCheck

/-- What a message was that does not follow the protocol. -/
inductive ProtocolFault
  | endInsideHeader
  | malformedHeader (header : String)
  | badLength (value : String)
  | missingLength
  | invalidBody
  | undecodableMessage
  | badCompletionResult
  | initializeRefused (description : String)
  | noSource (file : String)
  | notConfigured
  | invalidRoot (root : String)
  | other (detail : String)
deriving DecidableEq, Repr

def ProtocolFault.message : ProtocolFault → String
  | .endInsideHeader => "stream ended inside a message header"
  | .malformedHeader header =>
    "malformed header: " ++ String.ofList (Text.quoted header.toList)
  | .badLength value => "bad Content-Length: " ++ String.ofList (Text.quoted value.toList)
  | .missingLength => "message without Content-Length"
  | .invalidBody => "invalid JSON body"
  | .undecodableMessage => "undecodable message"
  | .badCompletionResult => "bad completion result"
  | .initializeRefused description => "initialize failed: " ++ description
  | .noSource file => "no source for " ++ file
  | .notConfigured => "completion requested before configuration"
  | .invalidRoot root => "invalid root " ++ root
  | .other detail => detail

/-- Why a service could not be talked to.  A failure that the service itself reports is not among
these: it is a `Reply`. -/
inductive ServiceError
  | io (kind : IoKind)
  | protocol (fault : ProtocolFault)
  /-- No answer to a request within a time limit in milliseconds. -/
  | timeout (method : String) (limit : Nat)
  | exited
deriving DecidableEq, Repr

def ServiceError.diagnosis : ServiceError → Diagnosis
  | .io _ =>
    { message := "I/O error talking to the completion service", code := "harness::service::io" }
  | .protocol fault =>
    { message := "completion service protocol error: " ++ fault.message
      code := "harness::service::protocol" }
  | .timeout method limit =>
    { message := "no response to `" ++ method ++ "` within " ++ Time.durationText limit
      code := "harness::service::timeout" }
  | .exited => { message := "completion service exited", code := "harness::service::exited" }

end CompletionCheck
