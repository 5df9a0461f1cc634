import Superstep.Peer.Order

/-!
# The output of a job

Peers write records of parameters and costs. The records of all peers end up in one log, in the
order in which they were written, each with the name of its writer and the superstep it was written
in.
-/

namespace Superstep

/-- Parameters and their cost, as a peer wrote them. -/
structure OutputRecord (F : Type) where
  writer : PeerName
  /-- The superstep it was written in: a word in the program, which no run exhausts. -/
  superstep : Nat
  theta : List F
  cost : F
  deriving DecidableEq, Repr

/-- The records of a job, in the order in which they were written. -/
structure OutputLog (F : Type) where
  records : Array (OutputRecord F) := #[]
  deriving Repr

namespace OutputLog

variable {F : Type}

/-- Adds a record. -/
def append (log : OutputLog F) (entry : OutputRecord F) : OutputLog F := ⟨log.records.push entry⟩

/-- The records as a list. -/
def toList (log : OutputLog F) : List (OutputRecord F) := log.records.toList

/-- The record written last. -/
def last? (log : OutputLog F) : Option (OutputRecord F) := log.records.back?

/-- The names of those who wrote a record, each once, in their order. -/
def writers (log : OutputLog F) : List PeerName :=
  (byName id (log.toList.map (·.writer))).eraseReps

@[simp] theorem toList_append (log : OutputLog F) (entry : OutputRecord F) :
    (log.append entry).toList = log.toList ++ [entry] := by
  simp [append, toList]

@[simp] theorem last?_append (log : OutputLog F) (entry : OutputRecord F) :
    (log.append entry).last? = some entry := by
  simp [append, last?]

end OutputLog

end Superstep
