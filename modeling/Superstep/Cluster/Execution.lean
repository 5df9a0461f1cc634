import Superstep.Cluster.Basic
import Superstep.Cluster.Harvest
import Superstep.Cluster.Output
import Superstep.Peer.Program

/-!
# How a job runs

A job that runs is a row of stations, one for each peer, around a barrier. A station holds what
belongs to its peer alone: the program it is in, its partition, the messages the last barrier
delivered (its inbox), and a mailbox in which messages of the current superstep gather. Stations
share the barrier, the output log and the journal.

Nothing happens by itself: a job moves by *turns*, and a turn is one peer's smallest step, or the
job's taking note of one peer's end, or the stopping of a peer after the job has ended. Which turn
comes next is nowhere decided, so a job can run in many ways; `Execution.turn` says what each turn
does, and that it may not be possible.

## The barrier

A superstep ends when all peers have reached the barrier. Everybody then empties the inbox, fills
it with what the mailbox holds, and waits at the barrier once more: nobody may send before all
mailboxes have been emptied. So a peer passes through four activities.

| activity | left when |
|---|---|
| `running` | the program calls for the barrier |
| `entering` | all have arrived |
| `collecting` | the mailbox is empty |
| `departing` | all have arrived again |

## The end of a peer

A peer that is over first leaves – from then on nobody can send to it – and is reported to the job
in a turn of its own. So there is a time in which a message cannot be sent any more though the job
has not heard of the reason.
-/

namespace Superstep

/-- A meeting point that opens when all parties have arrived, again and again. -/
structure Barrier where
  /-- How many have to arrive. -/
  parties : Nat
  /-- How often it has opened. -/
  openings : Nat := 0
  /-- How many have arrived since. -/
  arrived : Nat := 0
  deriving DecidableEq, Repr

namespace Barrier

/-- One more has arrived. -/
def arrive (barrier : Barrier) : Barrier :=
  if barrier.arrived + 1 = barrier.parties then
    { barrier with openings := barrier.openings + 1, arrived := 0 }
  else { barrier with arrived := barrier.arrived + 1 }

/-- Whether it has opened for those who arrived after so many openings. -/
def isOpen (barrier : Barrier) (openings : Nat) : Bool := decide (openings < barrier.openings)

end Barrier

/-- What a peer is busy with. -/
inductive Activity (F M S ε α : Type)
  /-- Its own program. -/
  | running (program : Round F M S ε α)
  /-- It waits for everybody to end the superstep. -/
  | entering (openings : Nat) (next : Except PeerError Nat → Round F M S ε α)
  /-- It moves messages from the mailbox to the inbox. -/
  | collecting (next : Except PeerError Nat → Round F M S ε α)
  /-- It waits for everybody to have collected. -/
  | departing (openings : Nat) (next : Except PeerError Nat → Round F M S ε α)
  /-- It is over, and the job has not been told. -/
  | leaving (outcome : Outcome ε α)
  /-- It is over. -/
  | gone (outcome : Outcome ε α)
  /-- It was stopped. -/
  | stopped

/-- A peer in a job that runs. -/
structure Station (F M S ε α : Type) where
  seat : Seat
  process : Process F M S ε α
  partition : Partition F
  activity : Activity F M S ε α
  /-- How many barriers it has passed. A word in the program; a run that lasts for two to the
  sixty-fourth supersteps is left out. -/
  superstep : Nat := 0
  /-- Messages of the current superstep, the oldest first. -/
  mailbox : List (Envelope M) := []
  /-- What the last barrier delivered and the peer has not taken. -/
  inbox : List (Envelope M) := []

/-- A job that runs. -/
structure Execution (F M S ε α : Type) where
  stations : List (Station F M S ε α)
  barrier : Barrier
  output : OutputLog F := {}
  /-- What the job has told about its peers. -/
  journal : Array (PeerName × Event F) := #[]
  /-- Ends of peers the job has not taken note of, the oldest first. -/
  reports : List (Seat × Outcome ε α) := []
  harvest : Harvest α
  ending? : Option (Ending ε α) := none

/-- What can happen next in a job. -/
inductive Turn
  /-- The peer at a position makes its next step. -/
  | step (index : Nat)
  /-- The job takes note of a peer's end. -/
  | note
  /-- The peer at a position is stopped. -/
  | stop (index : Nat)
  deriving DecidableEq, Repr

variable {F M S ε α : Type}

namespace Station

/-- A peer that has not begun. -/
def ready (seat : Seat) (partition : Partition F) (process : Process F M S ε α) :
    Station F M S ε α :=
  { seat, process, partition, activity := .running (.done (.ok (.goOn process.start))) }

/-- Whether messages can be sent to it. -/
def isReachable (station : Station F M S ε α) : Bool :=
  match station.activity with
  | .running _ | .entering .. | .collecting _ | .departing .. => true
  | .leaving _ | .gone _ | .stopped => false

/-- Whether it has ended with a value. -/
def hasEndedWell (station : Station F M S ε α) : Bool :=
  match station.activity with
  | .leaving (.value _) | .gone (.value _) => true
  | _ => false

/-- Goes on with a program. -/
def resume (station : Station F M S ε α) (program : Round F M S ε α) : Station F M S ε α :=
  { station with activity := .running program }

/-- Is over. -/
def leave (station : Station F M S ε α) (outcome : Outcome ε α) : Station F M S ε α :=
  { station with activity := .leaving outcome }

/-- Gets a message into the mailbox. -/
def receive (station : Station F M S ε α) (envelope : Envelope M) : Station F M S ε α :=
  { station with mailbox := station.mailbox ++ [envelope] }

end Station

namespace Execution

/-- A job in which nothing has happened. -/
def ofCluster (cluster : Cluster F) (body : Seat → Process F M S ε α) : Execution F M S ε α :=
  let stations := List.zipWith (fun seat partition => Station.ready seat partition (body seat))
    cluster.seats cluster.partitions
  { stations, barrier := { parties := stations.length },
    harvest := .expecting stations.length }

/-- Changes the station at a position. -/
def put (x : Execution F M S ε α) (index : Nat) (station : Station F M S ε α) :
    Execution F M S ε α :=
  { x with stations := x.stations.set index station }

/-- Tells an event of a peer. -/
def tell (x : Execution F M S ε α) (name : PeerName) (event : Event F) : Execution F M S ε α :=
  { x with journal := x.journal.push (name, event) }

/-- Puts a message into the mailbox of the peer of this name, if there is such a peer and it can be
reached. -/
def deliver (x : Execution F M S ε α) (receiver : PeerName) (envelope : Envelope M) :
    Except PeerError (Execution F M S ε α) :=
  match x.stations.findIdx? fun station => station.seat.name = receiver with
  | none => .error (.unknownPeer receiver)
  | some index =>
    match x.stations[index]? with
    | some station =>
      if station.isReachable then .ok (x.put index (station.receive envelope))
      else .error (.disconnected receiver)
    | none => .error (.unknownPeer receiver)

/-- Answers a call of the peer at a position, which is at this station. -/
def answer (x : Execution F M S ε α) (index : Nat) (station : Station F M S ε α) :
    (request : Call F M) → (request.Reply → Round F M S ε α) → Execution F M S ε α
  | .read, next =>
    if station.partition.readable then
      let (row?, partition) := station.partition.next
      x.put index ({ station with partition }.resume (next (.ok row?)))
    else x.put index (station.leave .crashed)
  | .reopen, next =>
    x.put index ({ station with partition := station.partition.reset }.resume (next (.ok ())))
  | .send receiver message, next =>
    match x.deliver receiver ⟨station.seat.name, message⟩ with
    | .error error => x.put index (station.resume (next (.error error)))
    | .ok x =>
      { x with stations := x.stations.modify index (·.resume (next (.ok ()))) }
  | .sync, next =>
    { x.put index { station with activity := .entering x.barrier.openings next } with
      barrier := x.barrier.arrive }
  | .drain, next => x.put index ({ station with inbox := [] }.resume (next station.inbox))
  | .write theta cost, next =>
    { x.put index (station.resume (next (.ok ()))) with
      output := x.output.append
        { writer := station.seat.name, superstep := station.superstep, theta, cost } }

/-- The messages the peer did not take are dropped, and those of the superstep that ends are
collected. -/
def beginCollecting (x : Execution F M S ε α) (index : Nat) (station : Station F M S ε α)
    (next : Except PeerError Nat → Round F M S ε α) : Execution F M S ε α :=
  let x := x.put index { station with activity := .collecting next, inbox := [] }
  if station.inbox.isEmpty then x
  else x.tell station.seat.name (.discardingMessages station.superstep station.inbox.length)

/-- The next step of the peer at a position, which is at this station, unless it has to wait or is
over. -/
def step (x : Execution F M S ε α) (index : Nat) (station : Station F M S ε α) :
    Option (Execution F M S ε α) :=
  match station.activity with
  | .running (.done (.ok (.goOn state))) =>
    some (x.put index (station.resume (station.process.round state)))
  | .running (.done (.ok (.finish value))) => some (x.put index (station.leave (.value value)))
  | .running (.done (.error error)) => some (x.put index (station.leave (.failed error)))
  | .running .crash => some (x.put index (station.leave .crashed))
  | .running (.tell event next) =>
    some ((x.put index (station.resume next)).tell station.seat.name event)
  | .running (.call request next) => some (x.answer index station request next)
  | .entering openings next =>
    if x.barrier.isOpen openings then some (x.beginCollecting index station next) else none
  | .collecting next =>
    match station.mailbox with
    | envelope :: rest =>
      some (x.put index { station with mailbox := rest, inbox := station.inbox ++ [envelope] })
    | [] =>
      some { x.put index { station with activity := .departing x.barrier.openings next } with
        barrier := x.barrier.arrive }
  | .departing openings next =>
    if x.barrier.isOpen openings then
      let superstep := station.superstep + 1
      some (x.put index ({ station with superstep }.resume (next (.ok superstep))))
    else none
  | .leaving outcome =>
    some { x.put index { station with activity := .gone outcome } with
      reports := x.reports ++ [(station.seat, outcome)] }
  | .gone _ | .stopped => none

/-- What the job tells when it takes note of an outcome. -/
def remark : Outcome ε α → Event F
  | .value _ => .peerFinished
  | .failed _ => .peerFailed
  | .crashed => .peerCrashed

/-- Takes note of a peer's end. -/
def noteReport (x : Execution F M S ε α) : Option (Execution F M S ε α) :=
  match x.ending?, x.reports with
  | none, (seat, outcome) :: reports =>
    let (harvest, ending?) := x.harvest.take seat outcome
    some ({ x with reports, harvest, ending? }.tell seat.name (remark outcome))
  | _, _ => none

/-- Stops a peer, which is possible once the job has ended. -/
def stop (x : Execution F M S ε α) (index : Nat) (station : Station F M S ε α) :
    Option (Execution F M S ε α) :=
  match x.ending?, station.activity with
  | none, _ | _, .gone _ | _, .stopped => none
  | some _, _ => some (x.put index { station with activity := .stopped })

/-- What a turn does, if it is possible. -/
def turn (x : Execution F M S ε α) : Turn → Option (Execution F M S ε α)
  | .step index => x.stations[index]?.bind (x.step index)
  | .note => x.noteReport
  | .stop index => x.stations[index]?.bind (x.stop index)

end Execution

end Superstep
