import Superstep.Peer.Basic

/-!
# Collecting what the peers end with

A peer ends with a value, with an error, or by breaking off. A job takes these outcomes in whatever
order they arrive. Values are put where their peers stand in the enumeration, and when the last one
is there the job has ended with all of them. The first outcome that is no value ends the job at
once, and nothing that arrives later matters.
-/

namespace Superstep

/-- How a peer ended. -/
inductive Outcome (ε α : Type)
  | value (value : α)
  | failed (error : ε)
  | crashed
  deriving DecidableEq, Repr

/-- How a job ended. -/
inductive Ending (ε α : Type)
  /-- With the values of all peers, in the order of enumeration. -/
  | values (values : List α)
  /-- With the error of a peer. -/
  | failed (error : ε)
  /-- Because the peer of this name broke off. -/
  | crashed (name : PeerName)
  deriving DecidableEq, Repr

/-- The values of a job, where they are known. -/
structure Harvest (α : Type) where
  values : List (Option α)
  deriving Repr

namespace Harvest

variable {ε α : Type}

/-- Nothing is known of so many peers. -/
def expecting (count : Nat) : Harvest α := ⟨List.replicate count none⟩

/-- The value of the peer at a position. -/
def put (harvest : Harvest α) (index : Nat) (value : α) : Harvest α :=
  ⟨harvest.values.set index (some value)⟩

/-- All values, if all are known. -/
def all? (harvest : Harvest α) : Option (List α) := harvest.values.mapM id

/-- Takes the outcome of the peer at a seat. The job may have ended by it. -/
def take (harvest : Harvest α) (seat : Seat) :
    Outcome ε α → Harvest α × Option (Ending ε α)
  | .value value =>
    let harvest := harvest.put seat.index value
    (harvest, harvest.all?.map .values)
  | .failed error => (harvest, some (.failed error))
  | .crashed => (harvest, some (.crashed seat.name))

/-- Takes outcomes one after the other until the job has ended. -/
def takeAll (harvest : Harvest α) : List (Seat × Outcome ε α) → Option (Ending ε α)
  | [] => none
  | (seat, outcome) :: rest =>
    match harvest.take seat outcome with
    | (_, some ending) => some ending
    | (harvest, none) => takeAll harvest rest

end Harvest

end Superstep
