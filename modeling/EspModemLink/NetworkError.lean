/-!
# Error values

The codes, native numbers and contexts that the library reports.
-/

namespace EspModemLink

inductive NetworkErrc where
  | kInvalidArgument | kNotInitialized | kNotSupported | kTimeout | kCanceled | kResourceBusy
  | kNoResources | kDnsFailed | kAlreadyConnected | kNotConnected | kConnectFailed
  | kConnectionRefused | kConnectionReset | kConnectionLost | kTlsHandshakeFailed
  | kTlsCertificateInvalid | kTlsCertificateExpired | kTlsHostnameMismatch | kAuthRejected
  | kAuthTimeout | kTransmitFailed | kReceiveFailed | kBufferOverflow | kNetworkUnavailable
  | kNetworkDetached | kRoamingNotAllowed | kProtocolError | kHttpErrorStatus
  | kMqttNotAuthorized | kWsHandshakeFailed | kAtCommandError | kAtCmeError | kAtCmsError
  | kAtTimeout | kModemNotResponding | kSimNotDetected | kSimPinRequired | kSimPukRequired
  | kUnknown
deriving DecidableEq, Repr

structure NetworkError where
  code : NetworkErrc
  native : Int
  context : String
deriving DecidableEq, Repr

/-- `Result<T>`. -/
abbrev Result (α : Type) := Except NetworkError α

inductive AtErrc where
  | kTimeout | kCommandError | kCmeError | kCmsError | kTransmitFailed | kNotInitialized
  | kNotSupported
deriving DecidableEq, Repr

structure AtError where
  code : AtErrc
  cme : Int := 0
  cms : Int := 0
  context : String := ""
deriving DecidableEq, Repr

abbrev AtResult (α : Type) := Except AtError α

def AtError.toNetworkError (e : AtError) : NetworkError :=
  match e.code with
  | .kTimeout => ⟨.kAtTimeout, 0, e.context⟩
  | .kCommandError => ⟨.kAtCommandError, 0, e.context⟩
  | .kCmeError => ⟨.kAtCmeError, e.cme, e.context⟩
  | .kCmsError => ⟨.kAtCmsError, e.cms, e.context⟩
  | .kTransmitFailed => ⟨.kTransmitFailed, 0, e.context⟩
  | .kNotInitialized => ⟨.kNotInitialized, 0, e.context⟩
  | .kNotSupported => ⟨.kNotSupported, 0, e.context⟩

end EspModemLink
