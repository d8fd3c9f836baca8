import Mathlib.Tactic.TypeStar

/-!
# Messages

The protocol buffers of `message.proto`, field by field.  `int32` is `Int`; a `repeated` field is a
list; a sub-message is an `Option`, because the nodes do tell an absent sub-message (`has_...`)
from an empty one.

Values travel as `float`.  Nothing in the development depends on what a float is: `FloatOps` names
the operations the servers perform on them and asks for no law, so every result below holds for
arbitrary, uninterpreted ones.
-/

set_option autoImplicit false

namespace Rpscc

/-- The float operations of the server: `0.0f`, `+`, `/` and the conversion of an `int32`. -/
class FloatOps (F : Type) where
  /-- `0.0f`. -/
  zero : F
  /-- Float addition. -/
  add : F → F → F
  /-- Float division. -/
  div : F → F → F
  /-- The conversion of an integer operand. -/
  ofInt : Int → F

/-- Integers as floats, for running the model on small inputs. -/
instance : FloatOps Int where
  zero := 0
  add := (· + ·)
  div := (· / ·)
  ofInt := id

/-- `Message.MessageType`. -/
inductive MessageType
  | config | request | heartbeat | register | terminate
deriving DecidableEq, Repr

/-- `RequestMessage.RequestType`. -/
inductive RequestType
  | keyValue | key | ack | block
deriving DecidableEq, Repr

/-- `Message.RequestMessage`: a push, a pull, a reply to a pull or a backup. -/
structure RequestMessage (F : Type) where
  requestType : RequestType
  keys : List Int
  values : List F
deriving DecidableEq, Repr

/-- `Message.ConfigMessage`, what the master tells every node about the cluster. -/
structure ConfigMessage where
  workerNum : Int
  serverNum : Int
  keyRange : Int
  nodeIpPort : List String
  partition : List Int
  backupSize : Int
  serverId : List Int
  workerId : List Int
  masterId : List Int
  bound : Int
deriving DecidableEq, Repr

/-- `Message.HeartbeatMessage`. -/
structure HeartbeatMessage where
  isLive : Bool
  agentEpochNum : Int
deriving DecidableEq, Repr

/-- `Message.RegisterMessage`. -/
structure RegisterMessage where
  ip : String
  port : Int
  isServer : Bool
deriving DecidableEq, Repr

/-- `Message`. -/
structure Message (F : Type) where
  sendId : Int
  recvId : Int
  messageType : MessageType
  configMsg : Option ConfigMessage := none
  requestMsg : Option (RequestMessage F) := none
  heartbeatMsg : Option HeartbeatMessage := none
  registerMsg : Option RegisterMessage := none
deriving DecidableEq, Repr

/-- A message together with the node id it was handed to `Send` for. -/
structure Sent (F : Type) where
  dst : Int
  msg : Message F
deriving DecidableEq, Repr

end Rpscc
