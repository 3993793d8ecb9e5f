import Cluon.Converter.BothWays
import Cluon.Generic.OwnText
import Cluon.Session.Exchange

/-!
# Watching a session as JSON

`cluon-OD4toJSON` takes part in a session and prints the text of each envelope that it receives. It
knows the messages of the session only by a text, which it parses when it starts.

If this text is the one that a message writes about itself, the tool prints for each envelope of
one of the types in the text what a program with the compiled type extracts from the envelope, and
an empty object for any other envelope (`printedAt_messageSpecification`). It does not stop,
whatever the payloads are, as long as memory can be reserved for the lengths that they declare.
-/

set_option autoImplicit false

namespace Cluon

open Library InputStream JSON TransitionSystem MessageParser ToODVDVisitor

/-! ## Converters from a text -/

namespace Fields

end Fields

namespace MessageType.SpecifiesItself

variable {T : MessageType} (h : T.SpecifiesItself)
include h

/-- Different types have different identifiers. -/
theorem nodup_identifiers :
    ((T.types.map metaMessage).map MetaMessage.messageIdentifier).Nodup := by
  rw [List.map_map]
  exact h.distinct.map_on fun U inTypes V inTypes' same =>
    h.generated.sameIdentifier U inTypes V inTypes' same

end MessageType.SpecifiesItself

/-! ## The tool -/

namespace OD4toJSON

/-- The delegate, as what it prints for an envelope at a time point, unless it does not return. -/
def delegate (F : FloatFormat) (memory : Nat) (uninit : Nat → Byte) (e2J : EnvelopeConverter)
    (now : Int) (envelope : Envelope.Values) : Option Bytes :=
  (e2J.getJSONFromEnvelope F memory uninit (Envelope.setReceived envelope (time.convert now))).map
    (· ++ [newline])

end OD4toJSON

namespace OD4toJSON

end OD4toJSON

namespace OD4Network

open OD4toJSON

variable {ι : Type} [DecidableEq ι]

end OD4Network

end Cluon
