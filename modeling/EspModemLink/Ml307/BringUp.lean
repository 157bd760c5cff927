import EspModemLink.AtChannel.Script
import EspModemLink.Hal.AbsorbedEvents
import EspModemLink.Ml307.Hal

/-!
# Bringing an ML307 up

`Initialize` and the control commands of `Ml307Hal`, over a port. The handlers that `Initialize`
subscribes are those of the other modules.
-/

namespace EspModemLink.Ml307

open AtChannel Transcript

variable {σ : Type} (port : Port σ)

/-- `Initialize`. -/
def initializeHal : HalM σ Unit := do
  port.command (atCommand ['E', '0']) kDefaultTimeout
  port.command (atCommand ['+', 'C', 'F', 'U', 'N', '=', '1']) kDefaultTimeout

/-- What `Initialize` goes through. -/
def initializeScript : List Step :=
  [.command (atCommand ['E', '0']) kDefaultTimeout,
    .command (atCommand ['+', 'C', 'F', 'U', 'N', '=', '1']) kDefaultTimeout]

theorem adds_initializeHal (s : σ) :
    Adds (initializeHal port.transcribed) s fun r _ es => FollowsScript initializeScript r es :=
  .follows (port.adds_perform (.command _ _) s) fun s' =>
    .followsLast (port.adds_perform (.command _ _) s')

end EspModemLink.Ml307
