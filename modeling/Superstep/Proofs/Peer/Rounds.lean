import Superstep.Proofs.Peer.Dialogue

/-!
# A peer round by round

A process goes through its rounds one after the other. What holds in every state that it comes into
is shown by following the rounds (`Superstep.Process.Comes`), and what holds in the middle of one by
looking at a single program (`Superstep.Program.Says`). A dialogue of the process is what has been
said in the rounds that are over and in the one that is not
(`Superstep.Process.Talks.exists_comes`).

A single round is known if it speaks a language and gives up at the first call that fails
(`Superstep.Program.Says.cases`): until a call fails it says what the language allows, and then it
is over.
-/

namespace Superstep

variable {F M S ε α β R : Type}

/-! ### One program -/

/-- **What a program can have said, and with what program it goes on.** -/
inductive Program.Says : Program F M α → Dialogue F M → Program F M α → Prop
  | nothing {program : Program F M α} : Says program [] program
  | tell {event : Event F} {next rest : Program F M α} {said : Dialogue F M} :
    Says next said rest → Says (.tell event next) said rest
  | call {request : Call F M} {next : request.Reply → Program F M α} {rest : Program F M α}
    {said : Dialogue F M} (reply : request.Reply) :
    Says (next reply) said rest → Says (.call request next) (⟨request, reply⟩ :: said) rest

namespace Program.Says

variable {program rest : Program F M α} {said more : Dialogue F M}

theorem trans {last : Program F M α} (h : program.Says said rest)
    (h' : rest.Says more last) : program.Says (said ++ more) last := by
  induction h with
  | nothing => exact h'
  | tell _ ih => exact .tell (ih h')
  | call reply _ ih => exact .call reply (ih h')

/-- Who is over says nothing. -/
theorem of_done {value : α} (h : (done value).Says said rest) : said = [] ∧ rest = done value := by
  cases h
  exact ⟨rfl, rfl⟩

/-- As long as no call fails, a language is spoken on. -/
theorem speaks {post : α → Language F M R → Prop} {language : Language F M R}
    (h : program.Says said rest) (speaks : program.Speaks post language)
    (fine : ∀ i ∈ said, i.failure? = none) : rest.Speaks post (language.after said) := by
  induction h generalizing language with
  | nothing => exact speaks
  | tell _ ih => exact ih speaks fine
  | call reply _ ih =>
    obtain ⟨first, others⟩ := List.forall_mem_cons.mp fine
    simpa using ih (speaks reply first) others

/-- A program gives up at the first call that fails, and at no other. -/
theorem givesUp {fail : PeerError → α} (h : program.Says said rest)
    (givesUp : program.GivesUp fail) :
    (∀ i ∈ said, i.failure? = none) ∨
      ∃ before i error, said = before ++ [i] ∧ i.failure? = some error ∧
        (∀ j ∈ before, j.failure? = none) ∧ rest = done (fail error) ∧
          ∃ next, program.Says before (.call i.request next) := by
  induction h with
  | nothing => exact .inl (by simp)
  | tell _ ih =>
    rcases ih givesUp with fine | ⟨before, i, error, same, failed, fine, finished, next, told⟩
    · exact .inl fine
    · exact .inr ⟨before, i, error, same, failed, fine, finished, next, told.tell⟩
  | @call request next rest said reply told ih =>
    cases failed : request.failure? reply with
    | some error =>
      have finished := givesUp.of_failure failed
      rw [finished] at told
      obtain ⟨rfl, rfl⟩ := told.of_done
      exact .inr ⟨[], ⟨request, reply⟩, error, rfl, failed, by simp, rfl, next, .nothing⟩
    | none =>
      rcases ih (givesUp.of_success failed) with
        fine | ⟨before, i, error, rfl, failed', fine, finished, next', told⟩
      · exact .inl (List.forall_mem_cons.mpr ⟨failed, fine⟩)
      · exact .inr ⟨⟨request, reply⟩ :: before, i, error, rfl, failed',
          List.forall_mem_cons.mpr ⟨failed, fine⟩, finished, next', .call reply told⟩

/-- **What a round says**: the beginning of something the language allows, until a call fails, and
then it is over. -/
theorem cases {fail : PeerError → α} {post : α → Language F M R → Prop} {language : Language F M R}
    (h : program.Says said rest) (speaks : program.Speaks post language)
    (givesUp : program.GivesUp fail) :
    ((∀ i ∈ said, i.failure? = none) ∧ rest.Speaks post (language.after said)) ∨
      ∃ before i error, said = before ++ [i] ∧ i.failure? = some error ∧
        (∀ j ∈ before, j.failure? = none) ∧ rest = done (fail error) ∧
          ∃ next, (Program.call i.request next).Speaks post (language.after before) := by
  rcases h.givesUp givesUp with fine | ⟨before, i, error, same, failed, fine, finished, next, told⟩
  · exact .inl ⟨fine, h.speaks speaks fine⟩
  · exact .inr ⟨before, i, error, same, failed, fine, finished, next, told.speaks speaks fine⟩

/-- What is said in one program and then in another is said in both together. -/
theorem bind {program : Program F M β} {rest : β → Program F M α} {last : Program F M α}
    {value : β} (h : program.Says said (done value)) (h' : (rest value).Says more last) :
    (program >>= rest).Says (said ++ more) last := by
  generalize ended : done value = finish at h
  induction h with
  | nothing =>
    subst ended
    exact h'
  | tell _ ih => exact .tell (ih ended)
  | call reply _ ih => exact .call reply (ih ended)

theorem run_bind {program : ExceptT ε (Program F M) β} {rest : β → ExceptT ε (Program F M) α}
    {last : Program F M (Except ε α)} {value : β} (h : program.run.Says said (done (.ok value)))
    (h' : (rest value).run.Says more last) : (program >>= rest).run.Says (said ++ more) last := by
  rw [ExceptT.run_bind]
  exact h.bind h'

/-- Where the first program ends in an error, so do both together. -/
theorem run_bind_error {program : ExceptT ε (Program F M) β} {rest : β → ExceptT ε (Program F M) α}
    {error : ε} (h : program.run.Says said (done (.error error))) :
    (program >>= rest).run.Says said (done (.error error)) := by
  rw [ExceptT.run_bind, ← List.append_nil said]
  exact h.bind .nothing

theorem sayAll (events : List (Event F)) :
    (ExceptT.lift (Program.sayAll events) : ExceptT ε (Program F M) Unit).run.Says []
      (done (.ok ())) := by
  induction events with
  | nil => exact .nothing
  | cons event rest ih => exact .tell ih

theorem sendAll (receivers : List PeerName) (message : M) :
    (Program.sendAll receivers message : ExceptT PeerError (Program F M) Unit).run.Says
      (receivers.map fun receiver => ⟨.send receiver message, .ok ()⟩) (done (.ok ())) := by
  induction receivers with
  | nil => exact .nothing
  | cons receiver rest ih =>
    have first : (send receiver message : ExceptT PeerError (Program F M) Unit).run.Says
        [⟨.send receiver message, .ok ()⟩] (done (.ok ())) := call _ nothing
    exact first.run_bind ih

/-- Who can come to an end has not broken off. -/
theorem not_crash {value : α} (h : program.Says said crash)
    (h' : program.Says (said ++ more) (done value)) : False := by
  generalize whole : said ++ more = all at h'
  generalize ended : (crash : Program F M α) = last at h
  induction h generalizing all with
  | nothing =>
    subst ended
    cases h'
  | tell _ ih =>
    cases h' with
    | tell h' => exact ih _ whole h' ended
  | call reply _ ih =>
    cases h' with
    | call _ h' =>
      cases whole
      exact ih _ rfl h' ended

end Program.Says

/-! ### All rounds of a process -/

/-- **The rounds a process has been through**: what was said in them, the states they began in, and
the state in which the next one begins. -/
inductive Process.Comes (process : Process F M S ε α) : Dialogue F M → List S → S → Prop
  | start : Comes process [] [] process.start
  | round {dialogue said : Dialogue F M} {past : List S} {state next : S} :
    Comes process dialogue past state →
    (process.round state).Says said (.done (.ok (.goOn next))) →
    Comes process (dialogue ++ said) (past ++ [state]) next

namespace Process

variable {process : Process F M S ε α} {dialogue : Dialogue F M} {program : Round F M S ε α}

/-- In its rounds a process talks. -/
theorem Talks.along (talks : process.Talks dialogue program) {said : Dialogue F M}
    {rest : Round F M S ε α} (told : program.Says said rest) :
    process.Talks (dialogue ++ said) rest := by
  induction told generalizing dialogue with
  | nothing => simpa using talks
  | tell _ ih => exact ih talks.tell
  | call reply _ ih => simpa using ih (talks.call reply)

theorem Comes.talks {past : List S} {state : S} (comes : process.Comes dialogue past state) :
    process.Talks dialogue (.done (.ok (.goOn state))) := by
  induction comes with
  | start => exact .start
  | round _ told ih => exact ih.begin.along told

/-- **A dialogue is what has been said in rounds that are over, and in one that need not be.** -/
theorem Talks.exists_comes (talks : process.Talks dialogue program) :
    (dialogue = [] ∧ program = .done (.ok (.goOn process.start))) ∨
      ∃ before past state said, process.Comes before past state ∧
        (process.round state).Says said program ∧ dialogue = before ++ said := by
  induction talks with
  | start => exact .inl ⟨rfl, rfl⟩
  | begin _ ih =>
    rcases ih with ⟨rfl, finished⟩ | ⟨before, past, state, said, comes, told, rfl⟩
    · cases finished
      exact .inr ⟨[], [], process.start, [], .start, .nothing, rfl⟩
    · exact .inr ⟨_, _, _, [], comes.round told, .nothing, by simp⟩
  | tell _ ih =>
    rcases ih with ⟨-, finished⟩ | ⟨before, past, state, said, comes, told, rfl⟩
    · cases finished
    · refine .inr ⟨before, past, state, said, comes, ?_, rfl⟩
      simpa using told.trans (.tell .nothing)
  | call reply _ ih =>
    rcases ih with ⟨-, finished⟩ | ⟨before, past, state, said, comes, told, rfl⟩
    · cases finished
    · exact .inr ⟨before, past, state, _, comes, told.trans (.call reply .nothing), by simp⟩

end Process

end Superstep
