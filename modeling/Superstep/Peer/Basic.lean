/-!
# Peers

A job is carried out by peers. A peer has a name, unlike that of any other peer of the job, and
names are ordered by their characters. Whatever a peer is told by another arrives in an envelope
that says who sent it.

`Seat` is what a peer knows of its place in the job before it has done anything: its own name, its
position, and the names of all peers in the order in which the job enumerates them.
-/

namespace Superstep

/-- The name of a peer. -/
abbrev PeerName := String

/-- A message together with the name of its sender. -/
structure Envelope (M : Type) where
  sender : PeerName
  message : M
  deriving DecidableEq, Repr

/-- A peer's place in a job. -/
structure Seat where
  /-- The peer's own name. -/
  name : PeerName
  /-- The peer's position in `peers`. -/
  index : Nat
  /-- The names of all peers, in the order of enumeration. -/
  peers : List PeerName
  deriving DecidableEq, Repr

/-- The names of the other peers, in the order of enumeration. -/
def Seat.others (seat : Seat) : List PeerName := seat.peers.filter fun name => !(name == seat.name)

/-- A peer never counts itself among the others. -/
theorem Seat.name_not_mem_others (seat : Seat) : seat.name ∉ seat.others := by
  simp [Seat.others]

end Superstep
