import Mathlib.Data.UInt
import Mathlib.Tactic.Common

/-! The types streams and filters share. -/
namespace TinyPipewire

/-- `enum pwf_error`. -/
inductive PwfError
  | ok
  | invalidArg
  | connectFailed
  | invalidFormat
  | notConfigured
  | sourceUnavailable
  | inCallback
  | notFound
  | timeout
  | noMemory
  deriving DecidableEq, Repr

/-- `enum pwf_data_type`. -/
inductive DataType
  | audio
  | video
  | signal
  | event
  deriving DecidableEq, Repr

/-- `enum pw_link_state`. -/
inductive PwLinkState
  | error
  | unlinked
  | init
  | negotiating
  | allocating
  | paused
  | active
  deriving DecidableEq, Repr

/-- The link negotiated. -/
def PwLinkState.isUp : PwLinkState → Bool
  | .paused | .active => true
  | _ => false

/-- The link failed, or is gone. -/
def PwLinkState.isDown : PwLinkState → Bool
  | .error | .unlinked => true
  | _ => false

/-- What a link's `info` event reports; the listeners read the state only when the
change mask has `PW_LINK_CHANGE_MASK_STATE`. -/
structure PwLinkInfo where
  stateChanged : Bool
  state : PwLinkState
  deriving DecidableEq, Repr

abbrev Bytes := List UInt8

end TinyPipewire
