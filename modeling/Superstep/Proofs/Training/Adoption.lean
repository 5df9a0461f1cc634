import Superstep.Proofs.Peer.Rows
import Superstep.Proofs.Training.Rounds
import Superstep.Proofs.Training.Speech

/-!
# The first parameters

All peers start from the same parameters because the leader proposes them and everybody else adopts
what arrives. What a follower makes of its inbox depends on nothing but what is in it
(`Superstep.Bootstrap.adopt_eq_iff`):

| in the inbox | the follower |
|---|---|
| something that is no proposal | gives up at the first such envelope, whoever sent it |
| proposals only, the first of the others not empty | adopts this one |
| proposals only, the first of the others empty | misses the parameters |
| proposals only, and none of the others | misses the parameters |

A later proposal is never looked at, even if the first is empty.

`Superstep.Bootstrap.Script` says what passes between a peer and its surroundings meanwhile, for
leaders and followers, and `Superstep.Bootstrap.agreed` that this is all, in any surroundings: a
peer says what the script says, and only that, until it is over or a call fails.
-/

namespace Superstep

open TrainingProgram

variable {F : Type}

/-- What is wrong with a message where parameters are expected. -/
def Payload.thetaFault? : Payload F → Option (TrainingError F)
  | .theta _ => none
  | .cost _ _ => some (.unexpectedMessage .bootstrap "cost")
  | .gradient _ => some (.unexpectedMessage .bootstrap "gradient")

namespace Bootstrap

/-- What the others propose, in the order of arrival. -/
def proposals (me : PeerName) (received : List (Envelope (Payload F))) : List (List F) :=
  received.filterMap fun envelope =>
    match envelope.message with
    | .theta values => if envelope.sender = me then none else some values
    | _ => none

variable {me : PeerName} {received : List (Envelope (Payload F))}

/-- If nothing but parameters arrives, what counts is the first proposal of the others, after one
that is `held` already. -/
theorem adoptAfter_of_proposed (held : Option (List F))
    (proposed : ∀ e ∈ received, e.message.thetaFault? = none) :
    adoptAfter me held received =
      match held.or (proposals me received).head? with
      | some (value :: more) => .ok (value :: more)
      | _ => .error .missingTheta := by
  fun_induction adoptAfter me held received with
  | case1 value more => rfl
  | case2 held empty =>
    rw [proposals, List.filterMap_nil, List.head?_nil, Option.or_none]
    split
    · next value more => exact absurd rfl (empty value more)
    · rfl
  | case3 held values rest ih =>
    rw [ih (List.forall_mem_cons.mp proposed).2, proposals, proposals,
      List.filterMap_cons_none (by simp)]
  | case4 held sender values rest other ih =>
    rw [ih (List.forall_mem_cons.mp proposed).2, proposals, proposals,
      List.filterMap_cons_some (b := values) (by simp [other]), List.head?_cons]
    cases held <;> rfl
  | case5 held sender message rest other =>
    have first := (List.forall_mem_cons.mp proposed).1
    cases message with
    | theta values => exact absurd rfl (other values)
    | cost | gradient => cases first

/-- Anything else is told as soon as it is met. -/
theorem adoptAfter_of_fault {held : Option (List F)} {before after : List (Envelope (Payload F))}
    {envelope : Envelope (Payload F)} {failure : TrainingError F}
    (proposed : ∀ e ∈ before, e.message.thetaFault? = none)
    (strange : envelope.message.thetaFault? = some failure) :
    adoptAfter me held (before ++ envelope :: after) = .error failure := by
  induction before generalizing held with
  | nil =>
    obtain ⟨sender, message⟩ := envelope
    cases message with
    | theta => cases strange
    | cost | gradient =>
      obtain rfl := Option.some.inj strange
      rfl
  | cons first before ih =>
    obtain ⟨faultless, others⟩ := List.forall_mem_cons.mp proposed
    obtain ⟨sender, message⟩ := first
    cases message with
    | theta values =>
      rw [List.cons_append, adoptAfter]
      split <;> exact ih others
    | cost | gradient => cases faultless

/-- **What a follower makes of its inbox.** -/
inductive Verdict (me : PeerName) (received : List (Envelope (Payload F))) :
    Except (TrainingError F) (List F) → Prop
  | adopted {theta : List F} : (∀ e ∈ received, e.message.thetaFault? = none) →
    (proposals me received).head? = some theta → theta ≠ [] → Verdict me received (.ok theta)
  | unexpected {before after : List (Envelope (Payload F))} {envelope : Envelope (Payload F)}
    {failure : TrainingError F} :
    received = before ++ envelope :: after → (∀ e ∈ before, e.message.thetaFault? = none) →
    envelope.message.thetaFault? = some failure → Verdict me received (.error failure)
  | missing : (∀ e ∈ received, e.message.thetaFault? = none) →
    (∀ theta ∈ (proposals me received).head?, theta = []) →
    Verdict me received (.error .missingTheta)

/-- The inbox has one verdict, and that is what the follower goes by. -/
theorem adopt_eq_iff {result : Except (TrainingError F) (List F)} :
    adopt me received = result ↔ Verdict me received result := by
  constructor
  · rintro rfl
    by_cases proposed : ∀ e ∈ received, e.message.thetaFault? = none
    · rw [adopt, adoptAfter_of_proposed none proposed, Option.none_or]
      split
      · next value more first => exact .adopted proposed first (List.cons_ne_nil _ _)
      · next nothing =>
        refine .missing proposed fun theta first => ?_
        cases theta with
        | nil => rfl
        | cons value more => exact absurd first (nothing value more)
    · obtain ⟨failure, found⟩ :
          ∃ failure, received.findSome? (·.message.thetaFault?) = some failure := by
        simpa [← Option.ne_none_iff_exists', List.findSome?_eq_none_iff] using proposed
      obtain ⟨before, envelope, after, rfl, strange, so_far⟩ :=
        List.findSome?_eq_some_iff.mp found
      rw [adopt, adoptAfter_of_fault so_far strange]
      exact .unexpected rfl so_far strange
  · rintro (@⟨theta, proposed, first, some_value⟩ | ⟨rfl, proposed, strange⟩ | ⟨proposed, empty⟩)
    · rw [adopt, adoptAfter_of_proposed none proposed, Option.none_or, first]
      cases theta with
      | nil => exact absurd rfl some_value
      | cons value more => rfl
    · exact adoptAfter_of_fault proposed strange
    · rw [adopt, adoptAfter_of_proposed none proposed, Option.none_or]
      cases first : (proposals me received).head? with
      | none => rfl
      | some theta =>
        obtain rfl := empty theta first
        rfl

-- The own proposal is passed over, and the first of the others is not, though it is empty.
example : adopt "b" [⟨"b", .theta [1]⟩, ⟨"a", .theta []⟩, ⟨"c", .theta [2]⟩] =
    .error (.missingTheta : TrainingError Nat) := rfl

/-! ### What is said -/

/-- **What is said when the first parameters are agreed on**, and what comes of it, if no call
fails. -/
inductive Script (seat : Seat) (initial : F) :
    Role → Language F (Payload F) (Except (TrainingError F) (List F))
  | await {superstep received result} : Verdict seat.name received result →
    Script seat initial .follower [⟨.sync, .ok superstep⟩, ⟨.drain, received⟩] result
  | propose {row : Sample F} {superstep} : row.features ≠ [] →
    Script seat initial .leader
      ([⟨.read, .ok (some row)⟩, ⟨.reopen, .ok ()⟩] ++
        (seat.others.map fun receiver =>
          ⟨.send receiver (.theta (List.replicate row.features.length initial)), .ok ()⟩) ++
          [⟨.sync, .ok superstep⟩])
      (.ok (List.replicate row.features.length initial))
  | unprobed {row?} : (∀ row ∈ row?, row.features = []) →
    Script seat initial .leader [⟨.read, .ok row?⟩, ⟨.reopen, .ok ()⟩] (.error .dimensionProbe)

variable {seat : Seat} {role : Role} {initial : F} {said : Dialogue F (Payload F)}
  {result : Except (TrainingError F) (List F)}

/-- A peer says what the script says. -/
theorem speaks_agree (seat : Seat) (role : Role) (initial : F) :
    (agree seat role initial).run.Speaks (fun result left => left [] result)
      (Script seat initial role) := by
  cases role with
  | leader =>
    simp only [agree, propose, probe, Program.speaks_run_bind, speaks_read, speaks_reopen]
    intro row?
    rcases row? with _ | ⟨_ | ⟨feature, more⟩, label⟩
    · exact .unprobed (by simp)
    · exact .unprobed (by simp)
    · simp only [speaks_say, speaks_sendAll, speaks_sync]
      intro superstep
      have full : (⟨feature :: more, label⟩ : Sample F).features ≠ [] := List.cons_ne_nil _ _
      exact .propose full
  | follower =>
    simp only [agree, await, Program.speaks_run_bind, speaks_say, speaks_sync, speaks_drain,
      speaks_sayAll, speaks_mk_done]
    intro superstep received
    exact .await (adopt_eq_iff.mp rfl)

/-- What is said if no failure ends the run. -/
theorem says_attempt {α : Type} {request : ExceptT PeerError (Program F (Payload F)) α}
    {value : α} (h : request.run.Says said (.done (.ok value))) :
    (attempt request).run.Says said (.done (.ok value)) := by
  change (Except.mapError _ <$> request.run).Says _ _
  rw [map_eq_pure_bind, ← List.append_nil said]
  exact h.bind .nothing

/-- All that the script says can be said. -/
theorem Script.says (h : Script seat initial role said result) :
    (agree seat role initial).run.Says said (.done result) := by
  have told (event : Event F) : (say event).run.Says [] (.done (.ok ())) := .tell .nothing
  have waited (superstep : Nat) : (attempt (F := F) Program.sync).run.Says
      [⟨.sync, .ok superstep⟩] (.done (.ok superstep)) := says_attempt (.call _ .nothing)
  have looked (row? : Option (Sample F)) : (attempt Program.read).run.Says
      [⟨.read, .ok row?⟩] (.done (.ok row?)) := says_attempt (.call _ .nothing)
  have restarted : (attempt (F := F) Program.reopen).run.Says
      [⟨.reopen, .ok ()⟩] (.done (.ok ())) := says_attempt (.call _ .nothing)
  cases h with
  | @await superstep received _ verdict =>
    obtain rfl := adopt_eq_iff.mpr verdict
    have drained : (drain (F := F)).run.Says [⟨.drain, received⟩] (.done (.ok received)) :=
      .call _ .nothing
    exact (told _).run_bind ((waited superstep).run_bind (drained.run_bind
      ((Program.Says.sayAll _).run_bind .nothing)))
  | @propose row superstep full =>
    obtain ⟨_ | ⟨feature, more⟩, label⟩ := row
    · exact absurd rfl full
    have probed : (probe (F := F)).run.Says
        [⟨.read, .ok (some ⟨feature :: more, label⟩)⟩, ⟨.reopen, .ok ()⟩]
        (.done (.ok (feature :: more).length)) := (looked _).run_bind (restarted.run_bind .nothing)
    rw [List.append_assoc]
    exact probed.run_bind ((told _).run_bind ((says_attempt (.sendAll _ _)).run_bind
      ((waited superstep).run_bind .nothing)))
  | @unprobed row? empty =>
    have failed : (probe (F := F)).run.Says [⟨.read, .ok row?⟩, ⟨.reopen, .ok ()⟩]
        (.done (.error .dimensionProbe)) := by
      refine (looked row?).run_bind (restarted.run_bind ?_)
      rcases row? with _ | ⟨_ | ⟨feature, more⟩, label⟩
      · exact .nothing
      · exact .nothing
      · cases empty _ rfl
    exact failed.run_bind_error

/-- No failure is among what the script says. -/
theorem Script.fine (h : Script seat initial role said result) : ∀ i ∈ said, i.failure? = none := by
  cases h with
  | await _ | unprobed _ => simp [Interaction.failure?, Call.failure?]
  | propose _ =>
    simp only [List.forall_mem_append, List.forall_mem_map, List.forall_mem_cons]
    exact ⟨⟨⟨rfl, rfl, List.forall_mem_nil _⟩, fun _ _ => rfl⟩, rfl, List.forall_mem_nil _⟩

/-- **The row that is probed** is the one at the cursor, which is moved back to the first row. -/
theorem Script.probes {rows : List (Sample F)} {cursor last : Nat}
    (h : Script seat initial .leader said result) (serves : said.Serves rows cursor last) :
    last = 0 ∧ ((∃ row, rows[cursor]? = some row ∧ row.features ≠ [] ∧
        result = .ok (List.replicate row.features.length initial)) ∨
      (∀ row ∈ rows[cursor]?, row.features = []) ∧ result = .error .dimensionProbe) := by
  cases h with
  | @propose row superstep full =>
    rw [List.append_assoc, Dialogue.serves_append] at serves
    obtain ⟨next, ⟨_, ⟨found, -⟩, restarted⟩, rest⟩ := serves
    have idle : ∀ i ∈ (seat.others.map fun receiver => (⟨.send receiver (.theta
        (List.replicate row.features.length initial)), .ok ()⟩ : Interaction F (Payload F))) ++
          [⟨.sync, .ok superstep⟩], i.request.Idle := by
      simp only [List.forall_mem_append, List.forall_mem_map, List.forall_mem_cons]
      exact ⟨fun _ _ => trivial, trivial, List.forall_mem_nil _⟩
    have unmoved := (Dialogue.serves_idle idle).mp rest
    exact ⟨unmoved.trans (Dialogue.serves_reopen.mp restarted), .inl ⟨row, found, full, rfl⟩⟩
  | @unprobed row? empty =>
    obtain ⟨_, looked, restarted⟩ := serves
    refine ⟨Dialogue.serves_reopen.mp restarted, .inr ⟨?_, rfl⟩⟩
    cases row? with
    | none => simp [List.getElem?_eq_none looked.1]
    | some row => simpa [looked.1] using empty

/-- Among the others, everybody is as often as it is enumerated, and the peer itself is not. -/
theorem count_others (seat : Seat) (name : PeerName) :
    seat.others.count name = if name = seat.name then 0 else seat.peers.count name := by
  split
  · next self => exact List.count_eq_zero_of_not_mem (self ▸ seat.name_not_mem_others)
  · next other => exact List.count_filter (by simpa using other)

/-- **How a peer comes to its first parameters**, whatever its surroundings. -/
structure Agreed (seat : Seat) (role : Role) (initial : F) : Prop where
  /-- What the script says is what can be said to the end without a call that fails. -/
  told : ∀ said result, Script seat initial role said result ↔
    (∀ i ∈ said, i.failure? = none) ∧ (agree seat role initial).run.Says said (.done result)
  /-- The peer does not break off, -/
  lasts : ∀ said, ¬(agree seat role initial).run.Says said .crash
  /-- and a call that fails is its last one. -/
  failed : ∀ said rest, (agree seat role initial).run.Says said rest →
    (∀ i ∈ said, i.failure? = none) ∨ ∃ before i error, said = before ++ [i] ∧
      i.failure? = some error ∧ rest = .done (.error (.peer error))
  /-- There is one verdict on every inbox. -/
  judged : ∀ received : List (Envelope (Payload F)), ∃! result, Verdict seat.name received result
  /-- A proposal goes to everybody else as often as it is enumerated, and to nobody else. -/
  others : ∀ name, seat.others.count name = if name = seat.name then 0 else seat.peers.count name
  /-- The leader goes by the row at its cursor. -/
  probed : ∀ rows cursor said result last, Script seat initial .leader said result →
    said.Serves rows cursor last →
      last = 0 ∧ ((∃ row, rows[cursor]? = some row ∧ row.features ≠ [] ∧
          result = .ok (List.replicate row.features.length initial)) ∨
        (∀ row ∈ rows[cursor]?, row.features = []) ∧ result = .error .dimensionProbe)

/-- **The first parameters are agreed on as they should be**: a follower goes by the first proposal
that is not its own, and a leader by the row at its cursor. -/
theorem agreed (seat : Seat) (role : Role) (initial : F) : Agreed seat role initial where
  told said result := by
    refine ⟨fun script => ⟨script.fine, script.says⟩, fun ⟨fine, told⟩ => ?_⟩
    have left := told.speaks (speaks_agree seat role initial) fine
    exact Language.after_apply_nil.mp left
  lasts said crashed := by
    rcases crashed.givesUp (givesUp_agree seat role initial) with
      fine | ⟨_, _, _, -, -, -, finished, -⟩
    · -- what has been said is the beginning of something that can be said to the end
      obtain ⟨more, result, script⟩ := crashed.speaks (speaks_agree seat role initial) fine
      exact crashed.not_crash script.says
    · cases finished
  failed said rest told := by
    rcases told.givesUp (givesUp_agree seat role initial) with
      fine | ⟨before, i, error, same, failed, -, finished, -⟩
    · exact .inl fine
    · exact .inr ⟨before, i, error, same, failed, finished⟩
  judged received := ⟨_, adopt_eq_iff.mp rfl, fun _ verdict => (adopt_eq_iff.mpr verdict).symm⟩
  others := count_others seat
  probed _ _ _ _ _ script := script.probes

end Bootstrap

end Superstep
