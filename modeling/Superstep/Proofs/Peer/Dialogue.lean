import Mathlib.Data.List.Basic
import Superstep.Peer.Rehearsal

/-!
# A peer by itself

What a peer does is a matter between it and its surroundings: it makes a call, is given a reply,
and goes on. A *dialogue* is what has passed between the two so far. `Superstep.Process.Talks`
says which dialogues a process can come into, and with what program it goes on, when nothing at all
is known of the surroundings: each call may be given any reply, a failure included. A rehearsal is
one kind of surroundings among many (`Superstep.Rehearsal.talks_of_rounds`).

Two things are worth knowing of a process.

* It may give up at the first call that fails (`Superstep.Program.GivesUp`).
* As long as no call fails, it may follow a script that leaves some things open, as the number of
  rows or what an inbox holds. A script is given as a *language*: the dialogues that go from some
  point to the end, each with a word on how it ends. A program speaks a language if all it says on
  the way is the beginning of something the language allows (`Superstep.Program.Speaks`); what
  remains to be said gets shorter as it goes.

Both are looked at round by round, and `Superstep.Process.Talks.cases_of_follows` puts the rounds
together.
-/

namespace Superstep

variable {F M S ε α β R : Type}

/-! ### Dialogues -/

/-- What a call failed with, if it did. -/
def Call.failure? : (request : Call F M) → request.Reply → Option PeerError
  | .read, .error error | .reopen, .error error | .send _ _, .error error | .sync, .error error
  | .write _ _, .error error => some error
  | .read, .ok _ | .reopen, .ok _ | .send _ _, .ok _ | .sync, .ok _ | .write _ _, .ok _
  | .drain, _ => none

/-- A call and the reply to it. -/
structure Interaction (F M : Type) where
  request : Call F M
  reply : request.Reply

/-- What the call failed with, if it did. -/
def Interaction.failure? (i : Interaction F M) : Option PeerError := i.request.failure? i.reply

/-- What has passed between a peer and its surroundings, from the beginning on. -/
abbrev Dialogue (F M : Type) := List (Interaction F M)

/-- Every call can be given a reply that is no failure. -/
theorem Call.exists_reply (request : Call F M) :
    ∃ reply : request.Reply, request.failure? reply = none := by
  cases request with
  | read => exact ⟨.ok none, rfl⟩
  | reopen => exact ⟨.ok (), rfl⟩
  | send => exact ⟨.ok (), rfl⟩
  | sync => exact ⟨.ok 0, rfl⟩
  | drain => exact ⟨([] : List (Envelope M)), rfl⟩
  | write => exact ⟨.ok (), rfl⟩

/-- **The dialogues of a process in any surroundings**, each with the program that it goes on
with. -/
inductive Process.Talks (process : Process F M S ε α) : Dialogue F M → Round F M S ε α → Prop
  | start : Talks process [] (.done (.ok (.goOn process.start)))
  | begin {dialogue state} : Talks process dialogue (.done (.ok (.goOn state))) →
    Talks process dialogue (process.round state)
  | tell {dialogue event next} : Talks process dialogue (.tell event next) →
    Talks process dialogue next
  | call {dialogue request next} (reply : request.Reply) :
    Talks process dialogue (.call request next) →
    Talks process (dialogue ++ [⟨request, reply⟩]) (next reply)

namespace Program

/-! ### Giving up -/

/-- **A program gives up at the first call that fails**, and makes of the error what `fail`
says. -/
def GivesUp (fail : PeerError → α) : Program F M α → Prop
  | .done _ | .crash => True
  | .tell _ next => next.GivesUp fail
  | .call request next => ∀ reply, match request.failure? reply with
    | some error => next reply = .done (fail error)
    | none => (next reply).GivesUp fail

section GivesUp

variable {fail : PeerError → ε}

theorem GivesUp.of_failure {fail : PeerError → α} {request : Call F M}
    {next : request.Reply → Program F M α} (h : (call request next).GivesUp fail)
    {reply : request.Reply} {error : PeerError} (failed : request.failure? reply = some error) :
    next reply = .done (fail error) := by
  have := h reply
  rwa [failed] at this

theorem GivesUp.of_success {fail : PeerError → α} {request : Call F M}
    {next : request.Reply → Program F M α} (h : (call request next).GivesUp fail)
    {reply : request.Reply} (fine : request.failure? reply = none) :
    (next reply).GivesUp fail := by
  have := h reply
  rwa [fine] at this

/-- Whether a program gives up is seen part by part. -/
theorem GivesUp.run_bind {program : ExceptT ε (Program F M) β}
    {rest : β → ExceptT ε (Program F M) α}
    (h : program.run.GivesUp fun error => .error (fail error))
    (h' : ∀ value, (rest value).run.GivesUp fun error => .error (fail error)) :
    (program >>= rest).run.GivesUp fun error => .error (fail error) := by
  rw [ExceptT.run_bind]
  generalize program.run = program at h ⊢
  induction program with
  | done result =>
    cases result with
    | ok value => exact h' value
    | error error => trivial
  | crash => trivial
  | tell event next ih => exact ih h
  | call request next ih =>
    intro reply
    cases failed : request.failure? reply with
    | some error =>
      change next reply >>= _ = _
      rw [h.of_failure failed]
      rfl
    | none => exact ih reply (h.of_success failed)

/-- One call after another: the sending gives up where it fails. -/
theorem givesUp_sendAll (receivers : List PeerName) (message : M) :
    (sendAll receivers message : ExceptT PeerError (Program F M) Unit).run.GivesUp .error := by
  induction receivers with
  | nil => trivial
  | cons receiver rest ih =>
    refine @GivesUp.run_bind _ _ _ _ _ id _ _ (fun reply => ?_) fun _ => ih
    cases reply <;> trivial

/-- Giving up survives the renaming of errors. -/
theorem GivesUp.adapt {program : ExceptT PeerError (Program F M) α}
    (h : program.run.GivesUp .error) :
    (program.adapt fail).run.GivesUp fun error => .error (fail error) := by
  change (Except.mapError fail <$> program.run).GivesUp _
  rw [map_eq_pure_bind]
  generalize program.run = program at h ⊢
  induction program with
  | done | crash => trivial
  | tell event next ih => exact ih h
  | call request next ih =>
    intro reply
    cases failed : request.failure? reply with
    | some error =>
      change next reply >>= _ = _
      rw [h.of_failure failed]
      rfl
    | none => exact ih reply (h.of_success failed)

theorem givesUp_sayAll (events : List (Event F)) :
    (ExceptT.lift (sayAll events) : ExceptT ε (Program F M) Unit).run.GivesUp
      fun error => .error (fail error) := by
  induction events with
  | nil => trivial
  | cons event rest ih => exact ih

end GivesUp

end Program

/-! ### Languages -/

/-- Dialogues that go to the end, each with a word on how it ends. -/
abbrev Language (F M R : Type) := Dialogue F M → R → Prop

/-- What a language leaves to be said after some of it has been said. -/
def Language.after (language : Language F M R) (said : Dialogue F M) : Language F M R :=
  fun rest => language (said ++ rest)

@[simp] theorem Language.after_nil (language : Language F M R) : language.after [] = language :=
  rfl

@[simp] theorem Language.after_after (language : Language F M R) (said more : Dialogue F M) :
    (language.after said).after more = language.after (said ++ more) := by
  funext rest
  simp [after]

theorem Language.after_apply {language : Language F M R} {said rest : Dialogue F M} {r : R} :
    language.after said rest r ↔ language (said ++ rest) r := Iff.rfl

/-- Where nothing is left to be said, all has been said. -/
theorem Language.after_apply_nil {language : Language F M R} {said : Dialogue F M} {r : R} :
    language.after said [] r ↔ language said r := by
  rw [after_apply, List.append_nil]

/-- There is something to be said in a language. -/
def Language.Inhabited (language : Language F M R) : Prop := ∃ rest r, language rest r

namespace Program

/-- **A program speaks a language**: as long as no call fails, what it says is the beginning of
something the language allows, and when it is over a condition holds of what is left to be said. -/
def Speaks (post : α → Language F M R → Prop) : Program F M α → Language F M R → Prop
  | .done value, language => post value language
  | .crash, language => language.Inhabited
  | .tell _ next, language => next.Speaks post language
  | .call request next, language => ∀ reply, request.failure? reply = none →
      (next reply).Speaks post (language.after [⟨request, reply⟩])

variable {post : α → Language F M R → Prop} {language : Language F M R}

/-- Who speaks a language is never at a loss for words. -/
theorem Speaks.inhabited {program : Program F M α} (h : program.Speaks post language)
    (final : ∀ value language, post value language → language.Inhabited) :
    language.Inhabited := by
  induction program generalizing language with
  | done value => exact final value language h
  | crash => exact h
  | tell event next ih => exact ih h
  | call request next ih =>
    obtain ⟨reply, fine⟩ := request.exists_reply
    obtain ⟨rest, r, allowed⟩ := ih reply (h reply fine)
    exact ⟨⟨request, reply⟩ :: rest, r, allowed⟩

/-- **From one language to another**: who says to the end what a language allows speaks any other
in which this can be said, if the condition on the end holds of what is left then. -/
theorem Speaks.translate {told : Language F M (Option α)} {program : Program F M α}
    (h : program.Speaks (fun value left => left [] (some value)) told)
    (ends : ∀ said value, told said (some value) → post value (language.after said))
    (more : ∀ said ending, told said ending → (language.after said).Inhabited) :
    program.Speaks post language := by
  induction program generalizing told language with
  | done value => exact ends [] value h
  | crash =>
    obtain ⟨said, ending, allowed⟩ := h
    obtain ⟨rest, r, left⟩ := more said ending allowed
    exact ⟨said ++ rest, r, left⟩
  | tell event next ih => exact ih h ends more
  | call request next ih =>
    intro reply fine
    refine ih reply (h reply fine) (fun said value allowed => ?_) fun said ending allowed => ?_
    · rw [Language.after_after]
      exact ends _ value allowed
    · rw [Language.after_after]
      exact more _ ending allowed

theorem speaks_bind {program : Program F M β} {rest : β → Program F M α} :
    (program >>= rest).Speaks post language ↔
      program.Speaks (fun value language => (rest value).Speaks post language) language := by
  induction program generalizing language with
  | done | crash => rfl
  | tell event next ih => exact ih
  | call request next ih => exact forall_congr' fun reply => imp_congr_right fun _ => ih reply

/-- A program that may fail, and another one after it if it does not. -/
theorem speaks_run_bind {program : ExceptT ε (Program F M) β}
    {rest : β → ExceptT ε (Program F M) α} {post : Except ε α → Language F M R → Prop} :
    (program >>= rest).run.Speaks post language ↔
      program.run.Speaks (fun result language =>
        match result with
        | .ok value => (rest value).run.Speaks post language
        | .error error => post (.error error) language) language := by
  rw [ExceptT.run_bind, speaks_bind]
  refine iff_of_eq (congrArg (fun post => Speaks post program.run language) ?_)
  funext result language
  cases result <;> rfl

theorem speaks_map {program : Program F M β} {f : β → α} :
    (f <$> program).Speaks post language ↔
      program.Speaks (fun value language => post (f value) language) language := by
  rw [map_eq_pure_bind, speaks_bind]
  rfl

theorem speaks_sendAll {receivers : List PeerName} {message : M}
    {post : Except PeerError Unit → Language F M R → Prop} :
    (sendAll receivers message).run.Speaks post language ↔
      post (.ok ()) (language.after (receivers.map fun receiver =>
        ⟨.send receiver message, .ok ()⟩)) := by
  induction receivers generalizing language with
  | nil => rfl
  | cons receiver rest ih =>
    rw [sendAll, speaks_run_bind]
    constructor
    · intro h
      simpa using ih.mp (h (.ok ()) rfl)
    · intro h reply fine
      cases reply with
      | error error => cases fine
      | ok =>
        refine ih.mpr ?_
        simpa using h

end Program

/-! ### From rounds to dialogues -/

/-- How a round has to end where `rest` is what is left to be said from a state on, and `last` says
what has to be said when it is over. -/
def Language.Settles (rest : S → Language F M R) (last : Except ε α → Language F M R → Prop) :
    Except ε (Progress S α) → Language F M R → Prop
  | .ok (.goOn state), language => ∀ said r, rest state said r → language said r
  | .ok (.finish value), language => last (.ok value) language
  | .error error, language => last (.error error) language

/-- **A process follows its script**: every round speaks what is left to be said from its state on,
and gives up at the first call that fails. -/
structure Process.Follows (process : Process F M S ε α) (fail : PeerError → ε)
    (rest : S → Language F M R) (last : Except ε α → Language F M R → Prop) : Prop where
  speaks : ∀ state, (process.round state).Speaks (Language.Settles rest last) (rest state)
  givesUp : ∀ state, (process.round state).GivesUp fun error => .error (fail error)
  /-- There is always something left to be said. -/
  inhabited : ∀ state, (rest state).Inhabited
  final : ∀ result language, last result language → language.Inhabited

namespace Process

variable {process : Process F M S ε α} {fail : PeerError → ε} {rest : S → Language F M R}
  {last : Except ε α → Language F M R → Prop} {dialogue : Dialogue F M} {program : Round F M S ε α}

/-- What a process that follows a script has said if no call has failed: the beginning of what it
is to say, and the program speaks the rest. -/
structure OnScript (fail : PeerError → ε) (rest : S → Language F M R)
    (last : Except ε α → Language F M R → Prop) (whole : Language F M R) (dialogue : Dialogue F M)
    (program : Round F M S ε α) : Prop where
  fine : ∀ i ∈ dialogue, i.failure? = none
  speaks : ∃ language, program.Speaks (Language.Settles rest last) language ∧
    ∀ said r, language said r → whole (dialogue ++ said) r
  givesUp : program.GivesUp fun error => .error (fail error)

/-- What a process that follows a script has said if a call has failed: the beginning of what it
was to say up to that call, which is the last one, and it is over. -/
def GaveUp (fail : PeerError → ε) (whole : Language F M R) (dialogue : Dialogue F M)
    (program : Round F M S ε α) : Prop :=
  ∃ before i error, dialogue = before ++ [i] ∧ i.failure? = some error ∧
    (∀ j ∈ before, j.failure? = none) ∧ program = .done (.error (fail error)) ∧
      ∃ reply more r, whole (before ++ ⟨i.request, reply⟩ :: more) r

/-- What a round that is not over leaves to be said is not nothing. -/
theorem Follows.inhabited_of_settles (h : process.Follows fail rest last)
    (result : Except ε (Progress S α)) (language : Language F M R)
    (settles : Language.Settles rest last result language) : language.Inhabited := by
  match result, settles with
  | .ok (.goOn state), settles =>
    obtain ⟨said, r, left⟩ := h.inhabited state
    exact ⟨said, r, settles said r left⟩
  | .ok (.finish value), settles => exact h.final _ _ settles
  | .error error, settles => exact h.final _ _ settles

/-- One more call of a process that has kept to its script so far. -/
theorem Follows.call (h : process.Follows fail rest last) {whole : Language F M R}
    {request : Call F M} {next : request.Reply → Round F M S ε α}
    (onScript : OnScript fail rest last whole dialogue (.call request next))
    (reply : request.Reply) :
    OnScript fail rest last whole (dialogue ++ [⟨request, reply⟩]) (next reply) ∨
      GaveUp fail whole (dialogue ++ [⟨request, reply⟩]) (next reply) := by
  obtain ⟨fine, ⟨language, speaks, within⟩, givesUp⟩ := onScript
  cases failed : request.failure? reply with
  | none =>
    refine .inl ⟨fun i hi => ?_, ⟨_, speaks reply failed, fun said r left => ?_⟩,
      givesUp.of_success failed⟩
    · rcases List.mem_append.mp hi with hi | hi
      · exact fine i hi
      · obtain rfl := List.mem_singleton.mp hi
        exact failed
    · rw [List.append_assoc]
      exact within _ r left
  | some error =>
    -- had the call not failed, there would have been a way to go on
    obtain ⟨other, ok⟩ := request.exists_reply
    obtain ⟨more, r, allowed⟩ := (speaks other ok).inhabited h.inhabited_of_settles
    exact .inr ⟨dialogue, ⟨request, reply⟩, error, rfl, failed, fine, givesUp.of_failure failed,
      other, more, r, within _ r allowed⟩

/-- **The dialogues of a process that follows a script**: they are as the script says up to the
first call that fails, which is the last one. -/
theorem Talks.cases_of_follows (talks : process.Talks dialogue program)
    (h : process.Follows fail rest last) :
    OnScript fail rest last (rest process.start) dialogue program ∨
      GaveUp fail (rest process.start) dialogue program := by
  -- after a call that failed the process is over, so nothing follows it
  have stuck {dialogue : Dialogue F M} {program : Round F M S ε α}
      (gaveUp : GaveUp fail (rest process.start) dialogue program) :
      ∃ error, program = .done (.error error) := by
    obtain ⟨-, -, error, -, -, -, ended, -⟩ := gaveUp
    exact ⟨_, ended⟩
  induction talks with
  | start => exact .inl ⟨by simp, ⟨rest process.start, fun _ _ left => left, by simp⟩, trivial⟩
  | begin _ ih =>
    rcases ih with ⟨fine, ⟨language, settles, within⟩, -⟩ | gaveUp
    · refine .inl ⟨fine, ⟨_, h.speaks _, fun said r left => ?_⟩, h.givesUp _⟩
      exact within said r (settles said r left)
    · obtain ⟨error, ended⟩ := stuck gaveUp
      cases ended
  | tell _ ih =>
    rcases ih with ⟨fine, speaks, givesUp⟩ | gaveUp
    · exact .inl ⟨fine, speaks, givesUp⟩
    · obtain ⟨error, ended⟩ := stuck gaveUp
      cases ended
  | call reply _ ih =>
    rcases ih with onScript | gaveUp
    · exact h.call onScript reply
    · obtain ⟨error, ended⟩ := stuck gaveUp
      cases ended

end Process

/-! ### Rehearsals are surroundings -/

namespace Rehearsal

variable {process : Process F M S ε α}

/-- The calls that did not fail. -/
def made (r : Rehearsal F M) : List (Call F M) :=
  r.moments.toList.filterMap fun
    | .made request => some request
    | .told _ => none

/-- The calls of a dialogue that did not fail. -/
def granted (dialogue : Dialogue F M) : List (Call F M) :=
  (dialogue.filter (·.failure?.isNone)).map (·.request)

theorem granted_append (dialogue more : Dialogue F M) :
    granted (dialogue ++ more) = granted dialogue ++ granted more := by
  simp [granted]

/-- Of a call that can fail, a rehearsal records whether it did. -/
theorem made_attempt {γ : Type} (r : Rehearsal F M) (request : Call F M) (kind : CallKind)
    {answer : Rehearsal F M → Except PeerError (γ × Rehearsal F M)}
    (reply : Except PeerError γ → request.Reply)
    (failed : ∀ error, request.failure? (reply (.error error)) = some error)
    (fine : ∀ value, request.failure? (reply (.ok value)) = none)
    (silent : ∀ r value r', answer r = .ok (value, r') → r'.moments = r.moments) :
    (r.attempt request kind answer).2.made =
      r.made ++ granted [⟨request, reply (r.attempt request kind answer).1⟩] := by
  unfold attempt
  simp only
  split
  · simp [made, granted, Interaction.failure?, failed]
  · split
    · simp [made, granted, Interaction.failure?, failed]
    · next answered =>
      simp [made, granted, Interaction.failure?, fine, silent _ _ _ answered]

/-- Of one call, a rehearsal records whether it failed. -/
theorem made_answer (r : Rehearsal F M) (request : Call F M) :
    (r.answer request).2.made = r.made ++ granted [⟨request, (r.answer request).1⟩] := by
  cases request with
  | drain => simp [answer, made, granted, Interaction.failure?, Call.failure?]
  | read =>
    refine r.made_attempt .read .read id (fun _ => rfl) (fun _ => rfl) fun r value r' h => ?_
    obtain rfl : r.nextRow.2 = r' := congrArg Prod.snd (Except.ok.inj h)
    unfold nextRow
    split <;> rfl
  | sync =>
    refine r.made_attempt .sync .sync id (fun _ => rfl) (fun _ => rfl) fun r value r' h => ?_
    unfold passBarrier at h
    split at h <;> cases h
    rfl
  | reopen =>
    refine r.made_attempt .reopen .reopen id (fun _ => rfl) (fun _ => rfl) fun r value r' h => ?_
    cases h
    rfl
  | send receiver message =>
    refine r.made_attempt (.send receiver message) .send id (fun _ => rfl) (fun _ => rfl)
      fun r value r' h => ?_
    cases h
    rfl
  | write theta cost =>
    refine r.made_attempt (.write theta cost) .write id (fun _ => rfl) (fun _ => rfl)
      fun r value r' h => ?_
    cases h
    rfl

/-- **What is said on stage is a dialogue**: to play a program to its end is to have a dialogue. -/
theorem talks_of_play {r r' : Rehearsal F M} {program : Round F M S ε α}
    {result : Option (Except ε (Progress S α))} {dialogue : Dialogue F M}
    (talks : process.Talks dialogue program) (h : r.play program = (result, r')) :
    ∃ more, process.Talks (dialogue ++ more) (result.elim .crash .done) ∧
      r'.made = r.made ++ granted more := by
  induction program generalizing r dialogue with
  | done value =>
    obtain ⟨rfl, rfl⟩ := Prod.mk.inj h
    exact ⟨[], by simpa using talks, by simp [granted]⟩
  | crash =>
    obtain ⟨rfl, rfl⟩ := Prod.mk.inj h
    exact ⟨[], by simpa using talks, by simp [granted]⟩
  | tell event next ih =>
    obtain ⟨more, talks, made⟩ := ih talks.tell h
    exact ⟨more, talks, by simpa [Rehearsal.made] using made⟩
  | call request next ih =>
    have said := r.made_answer request
    change play (r.answer request).2 (next (r.answer request).1) = _ at h
    generalize r.answer request = answered at h said
    obtain ⟨more, talks, made⟩ := ih answered.1 (talks.call _) h
    refine ⟨⟨request, answered.1⟩ :: more, by simpa using talks, ?_⟩
    rw [made, said, List.append_assoc, ← granted_append]
    rfl

/-- The program that is left when the curtain falls, unless there is more to come. -/
def left? : Curtain ε α → Option (Round F M S ε α)
  | .value value => some (.done (.ok (.finish value)))
  | .error error => some (.done (.error error))
  | .crashed => some .crash
  | .unfinished => none

/-- The next round of a rehearsal is the last one, or more rounds follow. -/
theorem cases_of_rounds {rounds : Nat} {r r' : Rehearsal F M} {state : S}
    {curtain : Curtain ε α} {program : Round F M S ε α}
    (h : Rehearsal.rounds process (rounds + 1) state r = (curtain, r'))
    (left : left? curtain = some program) :
    (∃ result, r.play (process.round state) = (result, r') ∧
        program = result.elim .crash .done) ∨
      ∃ next between, r.play (process.round state) = (some (.ok (.goOn next)), between) ∧
        Rehearsal.rounds process rounds next between = (curtain, r') := by
  rw [Rehearsal.rounds] at h
  split at h
  · next played =>
    obtain ⟨rfl, rfl⟩ := Prod.mk.inj h
    cases left
    exact .inl ⟨_, played, rfl⟩
  · next played =>
    obtain ⟨rfl, rfl⟩ := Prod.mk.inj h
    cases left
    exact .inl ⟨_, played, rfl⟩
  · next played =>
    obtain ⟨rfl, rfl⟩ := Prod.mk.inj h
    cases left
    exact .inl ⟨_, played, rfl⟩
  · next played => exact .inr ⟨_, _, played, h⟩

/-- **A rehearsal is a dialogue**, which is on record but for the calls that failed. -/
theorem talks_of_rounds {rounds : Nat} {r r' : Rehearsal F M} {state : S}
    {curtain : Curtain ε α} {dialogue : Dialogue F M} {program : Round F M S ε α}
    (talks : process.Talks dialogue (.done (.ok (.goOn state))))
    (h : Rehearsal.rounds process rounds state r = (curtain, r'))
    (left : left? curtain = some program) :
    ∃ more, process.Talks (dialogue ++ more) program ∧ r'.made = r.made ++ granted more := by
  induction rounds generalizing state r dialogue with
  | zero =>
    obtain ⟨rfl, -⟩ := Prod.mk.inj h
    cases left
  | succ rounds ih =>
    rcases cases_of_rounds h left with ⟨result, played, rfl⟩ | ⟨next, between, played, h⟩
    · exact talks_of_play talks.begin played
    · obtain ⟨more, talks, made⟩ := talks_of_play talks.begin played
      obtain ⟨further, talks, made'⟩ := ih talks h
      refine ⟨more ++ further, by simpa using talks, ?_⟩
      rw [made', made, List.append_assoc, ← granted_append]

end Rehearsal

end Superstep
