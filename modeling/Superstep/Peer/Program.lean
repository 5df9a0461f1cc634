import Superstep.Data.Partition
import Superstep.Event
import Superstep.Peer.Error

/-!
# What a peer does

A peer acts on its surroundings by six calls: it reads the next of its rows or starts over with
them, sends a message, waits for everybody at the barrier, takes what the barrier delivered, and
writes a record. Each call but one may fail.

A `Program` is what a peer does next: it is over, it breaks off, it tells an event, or it makes a
call and goes on as the reply demands. It says nothing about how calls are answered, so the same
program runs in a job among others as well as in surroundings made up for the purpose, and what is
proved about its calls holds wherever it runs.

A program is a finite thing: it makes boundedly many calls, whatever the replies. A peer that goes
on for as long as its data demand is a `Process`: a state, and for every state a program for one
round, which ends in a new state, in a result or in an error.

## Failing

Most calls of a program that fail end it. `ExceptT` takes care of that: `Program.read`,
`Program.sync` and the others stand for one call each and raise the error they are answered with.
-/

namespace Superstep

/-- A peer's call to its surroundings. -/
inductive Call (F M : Type)
  /-- The next row, if there is one left. -/
  | read
  /-- All rows are to be read again. -/
  | reopen
  /-- A message to a peer, which gets it once everybody has reached the next barrier. -/
  | send (receiver : PeerName) (message : M)
  /-- Waits at the barrier. -/
  | sync
  /-- Takes what the last barrier delivered. -/
  | drain
  /-- Writes a record of parameters and cost. -/
  | write (theta : List F) (cost : F)
  deriving DecidableEq, Repr

/-- What a call is answered with. The answer of the barrier is the superstep that begins. -/
def Call.Reply {F M : Type} : Call F M → Type
  | read => Except PeerError (Option (Sample F))
  | reopen => Except PeerError Unit
  | send _ _ => Except PeerError Unit
  | sync => Except PeerError Nat
  | drain => List (Envelope M)
  | write _ _ => Except PeerError Unit

/-- What a peer does next. -/
inductive Program (F M α : Type)
  /-- Nothing more: it is over. -/
  | done (value : α)
  /-- It breaks off. -/
  | crash
  /-- It tells an event and goes on. -/
  | tell (event : Event F) (next : Program F M α)
  /-- It makes a call and goes on with the reply. -/
  | call (request : Call F M) (next : request.Reply → Program F M α)

namespace Program

variable {F M α β : Type}

/-- One program after the other. -/
def bind (program : Program F M α) (rest : α → Program F M β) : Program F M β :=
  match program with
  | done value => rest value
  | crash => crash
  | tell event next => tell event (next.bind rest)
  | call request next => call request fun reply => (next reply).bind rest

instance : Monad (Program F M) where
  pure := done
  bind := bind

theorem pure_eq_done (value : α) : (pure value : Program F M α) = done value := rfl

@[simp] theorem done_bind (value : α) (rest : α → Program F M β) :
    done value >>= rest = rest value := rfl

@[simp] theorem crash_bind (rest : α → Program F M β) : (crash : Program F M α) >>= rest = crash :=
  rfl

@[simp] theorem tell_bind (event : Event F) (next : Program F M α) (rest : α → Program F M β) :
    tell event next >>= rest = tell event (next >>= rest) := rfl

@[simp] theorem call_bind (request : Call F M) (next : request.Reply → Program F M α)
    (rest : α → Program F M β) :
    call request next >>= rest = call request fun reply => next reply >>= rest := rfl

theorem bind_done (program : Program F M α) : program.bind done = program := by
  induction program with
  | done value => rfl
  | crash => rfl
  | tell event next ih => exact congrArg (tell event) ih
  | call request next ih => exact congrArg (call request) (funext ih)

theorem bind_assoc {γ : Type} (program : Program F M α) (rest : α → Program F M β)
    (last : β → Program F M γ) :
    (program.bind rest).bind last = program.bind fun value => (rest value).bind last := by
  induction program with
  | done value => rfl
  | crash => rfl
  | tell event next ih => exact congrArg (tell event) ih
  | call request next ih => exact congrArg (call request) (funext ih)

instance : LawfulMonad (Program F M) :=
  LawfulMonad.mk' _ (fun program => bind_done program) (fun _ _ => rfl) bind_assoc

/-- Tells an event. -/
def say (event : Event F) : Program F M Unit := tell event (done ())

/-- Tells some events, one after the other. -/
def sayAll : List (Event F) → Program F M Unit
  | [] => done ()
  | event :: rest => tell event (sayAll rest)

/-- The next row, if there is one left. -/
def read : ExceptT PeerError (Program F M) (Option (Sample F)) := .mk (call .read done)

/-- Starts over with the rows. -/
def reopen : ExceptT PeerError (Program F M) Unit := .mk (call .reopen done)

/-- Sends a message. -/
def send (receiver : PeerName) (message : M) : ExceptT PeerError (Program F M) Unit :=
  .mk (call (.send receiver message) done)

/-- Waits at the barrier. -/
def sync : ExceptT PeerError (Program F M) Nat := .mk (call .sync done)

/-- Takes what the last barrier delivered. -/
def drain : Program F M (List (Envelope M)) := call .drain done

/-- Writes a record. -/
def write (theta : List F) (cost : F) : ExceptT PeerError (Program F M) Unit :=
  .mk (call (.write theta cost) done)

/-- Sends a message to each of these peers. -/
def sendAll (receivers : List PeerName) (message : M) : ExceptT PeerError (Program F M) Unit :=
  match receivers with
  | [] => pure ()
  | receiver :: rest => do
    send receiver message
    sendAll rest message

end Program

/-- How a round ends if nothing goes wrong. -/
inductive Progress (S α : Type)
  /-- Another round, from this state. -/
  | goOn (state : S)
  /-- No other round. -/
  | finish (value : α)
  deriving DecidableEq, Repr

/-- The program of one round. -/
abbrev Round (F M S ε α : Type) := Program F M (Except ε (Progress S α))

/-- What a peer does from beginning to end, in rounds. -/
structure Process (F M S ε α : Type) where
  /-- The state before the first round. -/
  start : S
  /-- The round from a state. -/
  round : S → Round F M S ε α

end Superstep
