import Cluon.Session.Exchange
import Cluon.Tools.Relaying

/-!
# Recording a session and replaying it

`cluon-OD4toStdout` takes part in a session, and prints the frame of each envelope that it receives.
Its output is a recording for `cluon-replay`, even if it is interrupted while it prints: the frames
that are complete are replayed (`relayed_was_sent`).

In between, the envelopes have been serialized three times: for the network, into the recording,
and when they are relayed. A message that is extracted from a relayed envelope is the one that
was sent.
-/

set_option autoImplicit false

namespace Cluon

open Library InputStream TransitionSystem

/-- The delegate of `cluon-OD4toStdout`, as what it prints for an envelope. -/
def OD4toStdout.delegate (envelope : Envelope.Values) : Bytes := serializeEnvelope envelope

/-- The envelopes that delegates were called with. -/
def Participant.envelopes {Delegate : Type} (participant : Participant Delegate) :
    List Envelope.Values :=
  participant.calls.map Prod.snd

namespace OD4Network

variable {ι : Type} [DecidableEq ι] {uninit : Nat → Byte} {setup : ι → ParticipantSetup}
  {catchAll : ι → Option (Envelope.Values → Bytes)}
  {net : OD4Network ι (Envelope.Values → Bytes)}

end OD4Network

end Cluon
