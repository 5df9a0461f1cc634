import Superstep.Peer.Program

/-!
# Rehearsing a program without a job

A program says nothing about how its calls are answered. A rehearsal answers them from a script:
the rows there are, what each barrier delivers, and which calls are to fail. It lets every message
go, passes every barrier at once up to a limit, and keeps a record of all that happened, so that
one peer can be watched by itself in surroundings that no job would bring about.

A fault is set for a kind of call and for its ordinal among the calls of that kind, those that
failed included. A call that fails changes nothing else.
-/

namespace Superstep

/-- The calls that can fail, without what they carry. -/
inductive CallKind
  | read
  | reopen
  | send
  | sync
  | write
  deriving DecidableEq, Repr

/-- The kind of a call, if it can fail. -/
def Call.kind? {F M : Type} : Call F M → Option CallKind
  | read => some .read
  | reopen => some .reopen
  | send .. => some .send
  | sync => some .sync
  | drain => none
  | write .. => some .write

/-- A failure that is set for one call. -/
structure Fault where
  kind : CallKind
  /-- How many calls of the kind come before it. -/
  ordinal : Nat
  error : PeerError
  deriving DecidableEq, Repr

/-- What is left of a fault after a call of a kind: a fault of that kind has come one call closer,
and none is left if the call was its own. -/
def Fault.after? (kind : CallKind) (fault : Fault) : Option Fault :=
  if fault.kind ≠ kind then some fault
  else
    match fault.ordinal with
    | 0 => none
    | ordinal + 1 => some { fault with ordinal }

/-- Something that happened in a rehearsal. -/
inductive Moment (F M : Type)
  /-- A call that did not fail. -/
  | made (request : Call F M)
  /-- An event that was told. -/
  | told (event : Event F)
  deriving DecidableEq, Repr

/-- Scripted surroundings of one peer. -/
structure Rehearsal (F M : Type) where
  rows : List (Sample F)
  /-- How many rows have been read. -/
  cursor : Nat := 0
  /-- What the last barrier delivered and nobody took. -/
  inbox : List (Envelope M) := []
  /-- What the barriers to come deliver; after these, they deliver nothing. -/
  deliveries : List (List (Envelope M))
  /-- The faults to come. -/
  faults : List Fault
  /-- How many barriers can be passed. -/
  barriers : Nat
  /-- How many barriers have been passed. -/
  superstep : Nat := 0
  /-- What has happened so far. -/
  moments : Array (Moment F M) := #[]

/-- How a rehearsal ends. -/
inductive Curtain (ε α : Type)
  | value (value : α)
  | error (error : ε)
  /-- The program broke off. -/
  | crashed
  /-- There were more rounds than were asked for. -/
  | unfinished
  deriving DecidableEq, Repr

namespace Rehearsal

variable {F M S ε α : Type}

/-- The error set for a call that is now made. -/
def fault? (r : Rehearsal F M) (kind : CallKind) : Option PeerError :=
  (r.faults.find? fun fault => fault.kind = kind ∧ fault.ordinal = 0).map (·.error)

/-- Answers a call of a kind that can fail: by the error set for it, or else by `answer`, which may
itself refuse. -/
def attempt {β : Type} (r : Rehearsal F M) (request : Call F M) (kind : CallKind)
    (answer : Rehearsal F M → Except PeerError (β × Rehearsal F M)) :
    Except PeerError β × Rehearsal F M :=
  let spent := { r with faults := r.faults.filterMap (·.after? kind) }
  match r.fault? kind with
  | some error => (.error error, spent)
  | none =>
    match answer spent with
    | .error error => (.error error, spent)
    | .ok (reply, next) => (.ok reply, { next with moments := next.moments.push (.made request) })

/-- The next row. Past the end nothing moves. -/
def nextRow (r : Rehearsal F M) : Option (Sample F) × Rehearsal F M :=
  match r.rows[r.cursor]? with
  | some row => (some row, { r with cursor := r.cursor + 1 })
  | none => (none, r)

/-- Passes a barrier, unless too many have been passed. -/
def passBarrier (r : Rehearsal F M) : Except PeerError (Nat × Rehearsal F M) :=
  if r.superstep = r.barriers then .error (.invalidCluster "sync limit")
  else
    .ok (r.superstep + 1,
      { r with
        superstep := r.superstep + 1
        inbox := r.deliveries.headD []
        deliveries := r.deliveries.tail })

/-- Answers a call. -/
def answer (r : Rehearsal F M) : (request : Call F M) → request.Reply × Rehearsal F M
  | .read => r.attempt .read .read fun r => .ok r.nextRow
  | .reopen => r.attempt .reopen .reopen fun r => .ok ((), { r with cursor := 0 })
  | .send receiver message => r.attempt (.send receiver message) .send fun r => .ok ((), r)
  | .sync => r.attempt .sync .sync passBarrier
  | .drain => (r.inbox, { r with inbox := [], moments := r.moments.push (.made .drain) })
  | .write theta cost => r.attempt (.write theta cost) .write fun r => .ok ((), r)

/-- Plays a program to its end. There is no value if it breaks off. -/
def play (r : Rehearsal F M) : Program F M α → Option α × Rehearsal F M
  | .done value => (some value, r)
  | .crash => (none, r)
  | .tell event next => play { r with moments := r.moments.push (.told event) } next
  | .call request next =>
    let (reply, r) := r.answer request
    play r (next reply)

/-- Plays at most so many rounds of a process. -/
def rounds (process : Process F M S ε α) :
    Nat → S → Rehearsal F M → Curtain ε α × Rehearsal F M
  | 0, _, r => (.unfinished, r)
  | more + 1, state, r =>
    match r.play (process.round state) with
    | (none, r) => (.crashed, r)
    | (some (.error error), r) => (.error error, r)
    | (some (.ok (.finish value)), r) => (.value value, r)
    | (some (.ok (.goOn state)), r) => rounds process more state r

/-- Enough rounds for a process that reads one row a round, or passes a barrier. -/
def roundLimit (r : Rehearsal F M) : Nat := (r.barriers + 2) * (r.rows.length + 2)

/-- Plays a process that reads one row a round and in its other rounds passes a barrier. -/
def run (r : Rehearsal F M) (process : Process F M S ε α) : Curtain ε α × Rehearsal F M :=
  rounds process r.roundLimit process.start r

/-- Plays a program that may fail. -/
def perform (r : Rehearsal F M) (program : ExceptT ε (Program F M) α) :
    Curtain ε α × Rehearsal F M :=
  match r.play program.run with
  | (none, r) => (.crashed, r)
  | (some (.error error), r) => (.error error, r)
  | (some (.ok value), r) => (.value value, r)

end Rehearsal

end Superstep
