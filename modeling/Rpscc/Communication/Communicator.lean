import Mathlib.Logic.Function.Basic

/-!
# The address book of a communicator

`ZmqCommunicator` maps node ids to addresses.  Only the map is here: what is sent through it is a
list of `Sent` messages, returned by the function that sends them.
-/

set_option autoImplicit false

namespace Rpscc

/-- `ZmqCommunicator::id_to_addr_`. -/
structure Communicator where
  idToAddr : Int → Option String

namespace Communicator

/-- A communicator that knows nobody. -/
def empty : Communicator := ⟨fun _ ↦ none⟩

/-- `ZmqCommunicator::AddIdAddr`: an id that is already there keeps its address. -/
def addIdAddr (c : Communicator) (id : Int) (addr : String) : Communicator :=
  match c.idToAddr id with
  | some _ => c
  | none => ⟨Function.update c.idToAddr id (some addr)⟩

/-- `ZmqCommunicator::DeleteId`. -/
def deleteId (c : Communicator) (id : Int) : Communicator :=
  ⟨Function.update c.idToAddr id none⟩

/-- `ZmqCommunicator::CheckIdAddr`. -/
def checkIdAddr (c : Communicator) (id : Int) (addr : String) : Bool :=
  c.idToAddr id == some addr

end Communicator

end Rpscc
