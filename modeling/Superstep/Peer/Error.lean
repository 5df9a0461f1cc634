import Superstep.Peer.Basic

/-!
# What can go wrong between a peer and its surroundings

Reading rows, sending messages, meeting at a barrier and writing records all happen outside the
peer, and all of them may fail. `PeerError` says how. A fault of the device below – an `IoFault` –
is passed on as it is; where only such faults can be reported, every other error becomes one of
kind `InvalidData` with the same text.
-/

namespace Superstep

/-- A fault of the device that holds rows and records: its kind and its text. -/
structure IoFault where
  kind : String
  text : String
  deriving DecidableEq, Repr

/-- A failure raised by a peer's surroundings. -/
inductive PeerError
  /-- The device below failed. -/
  | io (fault : IoFault)
  /-- A message was addressed to somebody who is no peer of the job. -/
  | unknownPeer (name : PeerName)
  /-- A message was addressed to a peer that has left. -/
  | disconnected (name : PeerName)
  /-- The rows are not what they should be. -/
  | invalidDataset (detail : String)
  /-- The job is not what it should be. -/
  | invalidCluster (detail : String)
  /-- A peer's program broke off. -/
  | crashed (name : PeerName)
  deriving DecidableEq, Repr

namespace PeerError

/-- The text of a failure. -/
def message : PeerError → String
  | io fault => s!"io error: {fault.text}"
  | unknownPeer name => s!"there is no peer named {name} in this job"
  | disconnected name => s!"peer {name} is no longer receiving messages"
  | invalidDataset detail => s!"invalid dataset: {detail}"
  | invalidCluster detail => s!"invalid cluster: {detail}"
  | crashed name => s!"peer {name} panicked"

/-- The text of the fault that caused a failure, if there is one. -/
def cause? : PeerError → Option String
  | io fault => some fault.text
  | _ => none

/-- The failure as a fault of the device: itself if it is one, else invalid data. -/
def toIoFault : PeerError → IoFault
  | io fault => fault
  | other => ⟨"InvalidData", other.message⟩

end PeerError

end Superstep
