import Cluon.Message.Visitable

/-!
# The messages of libcluon itself

The messages every recording and every session is made of: `cluon.data.TimeStamp`, and
`cluon.data.Envelope`, which carries the bytes of another message together with the time
stamps of its sampling, sending, and reception. `cluon.data.RecorderCommand` is one of the
messages that control the tools.
-/

set_option autoImplicit false

namespace Cluon

open Library

namespace FieldInfo

/-- A field as the specification language declares it. -/
def declared (typeName name : String) (fieldIdentifier : Nat) : FieldInfo :=
  ⟨BitVec.ofNat 32 fieldIdentifier, asciiBytes typeName, asciiBytes name⟩

end FieldInfo

/-- `cluon.data.TimeStamp`. -/
def TimeStamp : MessageType where
  info := ⟨12, asciiBytes "TimeStamp", asciiBytes "cluon.data.TimeStamp"⟩
  fields :=
    .scalar (.declared "int32_t" "seconds" 1) .int32 <|
    .scalar (.declared "int32_t" "microseconds" 2) .int32 <|
    .nil

namespace TimeStamp

/-- The time stamp with the given seconds and microseconds. -/
def of (seconds microseconds : BitVec 32) : TimeStamp.Values := (seconds, microseconds, ())

def seconds (ts : TimeStamp.Values) : BitVec 32 := ts.1

def microseconds (ts : TimeStamp.Values) : BitVec 32 := ts.2.1

end TimeStamp

/-- `cluon.data.Envelope`. -/
def Envelope : MessageType where
  info := ⟨1, asciiBytes "Envelope", asciiBytes "cluon.data.Envelope"⟩
  fields :=
    .scalar (.declared "int32_t" "dataType" 1) .int32 <|
    .scalar (.declared "std::string" "serializedData" 2) .bytes <|
    .nested (.declared "cluon::data::TimeStamp" "sent" 3) TimeStamp.info TimeStamp.fields <|
    .nested (.declared "cluon::data::TimeStamp" "received" 4) TimeStamp.info TimeStamp.fields <|
    .nested (.declared "cluon::data::TimeStamp" "sampleTimeStamp" 5) TimeStamp.info
      TimeStamp.fields <|
    .scalar (.declared "uint32_t" "senderStamp" 6) .uint32 <|
    .nil

namespace Envelope

def dataType (e : Envelope.Values) : BitVec 32 := e.1

def serializedData (e : Envelope.Values) : Bytes := e.2.1

def sent (e : Envelope.Values) : TimeStamp.Values := e.2.2.1

def received (e : Envelope.Values) : TimeStamp.Values := e.2.2.2.1

def sampleTimeStamp (e : Envelope.Values) : TimeStamp.Values := e.2.2.2.2.1

def senderStamp (e : Envelope.Values) : BitVec 32 := e.2.2.2.2.2.1

/-- A newly constructed envelope. -/
def initial : Envelope.Values :=
  (0, [], TimeStamp.of 0 0, TimeStamp.of 0 0, TimeStamp.of 0 0, 0, ())

end Envelope

/-- `cluon.data.RecorderCommand`. -/
def RecorderCommand : MessageType where
  info := ⟨11, asciiBytes "RecorderCommand", asciiBytes "cluon.data.RecorderCommand"⟩
  fields := .scalar (.declared "uint8_t" "command" 1) .uint8 .nil

/-- The recorder command with the given command. -/
def RecorderCommand.of (command : BitVec 8) : RecorderCommand.Values := (command, ())

end Cluon
