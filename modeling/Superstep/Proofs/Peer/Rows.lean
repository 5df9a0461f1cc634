import Superstep.Proofs.Peer.Rounds

/-!
# Surroundings that hold rows

Nothing has been said so far of where the rows of a peer come from. Mostly they are held somewhere,
and a *cursor* says which of them is next: a row that is read moves the cursor, starting over moves
it back, and nothing else does – in particular not a call that fails. `Superstep.Dialogue.Serves`
says that a dialogue took place in such surroundings, and where the cursor was before and after.
Rehearsals are such surroundings (`Superstep.Rehearsal.serves_of_rounds`).
-/

namespace Superstep

variable {F M : Type}

/-- **How a call moves the cursor** over some rows. -/
def Interaction.Moves (rows : List (Sample F)) (cursor : Nat) : Interaction F M → Nat → Prop
  | ⟨.read, .ok (some row)⟩, next => rows[cursor]? = some row ∧ next = cursor + 1
  | ⟨.read, .ok none⟩, next => rows.length ≤ cursor ∧ next = cursor
  | ⟨.reopen, .ok ()⟩, next => next = 0
  | ⟨.read, .error _⟩, next | ⟨.reopen, .error _⟩, next | ⟨.send _ _, _⟩, next
  | ⟨.sync, _⟩, next | ⟨.drain, _⟩, next | ⟨.write _ _, _⟩, next => next = cursor

/-- **A dialogue in surroundings that hold these rows**, and how it moves the cursor. -/
def Dialogue.Serves (rows : List (Sample F)) (cursor : Nat) : Dialogue F M → Nat → Prop
  | [], last => last = cursor
  | i :: rest, last => ∃ next, i.Moves rows cursor next ∧ Serves rows next rest last

/-- A call that neither reads nor starts over. -/
def Call.Idle : Call F M → Prop
  | .read | .reopen => False
  | .send _ _ | .sync | .drain | .write _ _ => True

namespace Dialogue

variable {rows : List (Sample F)} {cursor last : Nat} {dialogue more : Dialogue F M}

@[simp] theorem serves_nil : Serves rows cursor ([] : Dialogue F M) last ↔ last = cursor := Iff.rfl

theorem serves_cons {i : Interaction F M} : Serves rows cursor (i :: dialogue) last ↔
    ∃ next, i.Moves rows cursor next ∧ Serves rows next dialogue last := Iff.rfl

theorem serves_append : Serves rows cursor (dialogue ++ more) last ↔
    ∃ next, Serves rows cursor dialogue next ∧ Serves rows next more last := by
  induction dialogue generalizing cursor with
  | nil => simp
  | cons i dialogue ih =>
    simp only [List.cons_append, serves_cons, ih]
    constructor
    · rintro ⟨next, moves, further, before, after⟩
      exact ⟨further, ⟨next, moves, before⟩, after⟩
    · rintro ⟨further, ⟨next, moves, before⟩, after⟩
      exact ⟨next, moves, further, before, after⟩

/-- Reading a row takes it from where the cursor is. -/
theorem serves_row {row : Sample F} :
    Serves (M := M) rows cursor [⟨.read, .ok (some row)⟩] last ↔
      rows[cursor]? = some row ∧ last = cursor + 1 :=
  ⟨fun ⟨_, ⟨found, moved⟩, same⟩ => ⟨found, same.trans moved⟩,
    fun ⟨found, moved⟩ => ⟨_, ⟨found, rfl⟩, moved⟩⟩

/-- There is nothing to read only at the end. -/
theorem serves_end : Serves (M := M) rows cursor [⟨.read, .ok none⟩] last ↔
    rows.length ≤ cursor ∧ last = cursor :=
  ⟨fun ⟨_, ⟨past, moved⟩, same⟩ => ⟨past, same.trans moved⟩,
    fun ⟨past, moved⟩ => ⟨_, ⟨past, rfl⟩, moved⟩⟩

theorem serves_reopen : Serves (M := M) rows cursor [⟨.reopen, .ok ()⟩] last ↔ last = 0 :=
  ⟨fun ⟨_, moved, same⟩ => same.trans moved, fun moved => ⟨0, rfl, moved⟩⟩

/-- What neither reads nor starts over leaves the cursor where it is. -/
theorem serves_idle (idle : ∀ i ∈ dialogue, i.request.Idle) :
    Serves rows cursor dialogue last ↔ last = cursor := by
  induction dialogue with
  | nil => rfl
  | cons i dialogue ih =>
    obtain ⟨first, others⟩ := List.forall_mem_cons.mp idle
    have moves (next : Nat) : i.Moves rows cursor next ↔ next = cursor := by
      obtain ⟨request, reply⟩ := i
      cases request with
      | read | reopen => exact first.elim
      | send | sync | drain | write => rfl
    simp only [serves_cons, moves, exists_eq_left, ih others]

end Dialogue

/-! ### Rehearsals hold rows -/

namespace Rehearsal

variable {S ε α : Type}

/-- A call that can fail moves the cursor only if it is answered. -/
theorem moves_attempt {γ : Type} (r : Rehearsal F M) (request : Call F M) (kind : CallKind)
    {answer : Rehearsal F M → Except PeerError (γ × Rehearsal F M)}
    (reply : Except PeerError γ → request.Reply)
    (failed : ∀ error, Interaction.Moves r.rows r.cursor ⟨request, reply (.error error)⟩ r.cursor)
    (fine : ∀ r' value next, answer r' = .ok (value, next) → r'.rows = r.rows →
      r'.cursor = r.cursor → next.rows = r.rows ∧
        Interaction.Moves r.rows r.cursor ⟨request, reply (.ok value)⟩ next.cursor) :
    (r.attempt request kind answer).2.rows = r.rows ∧
      Interaction.Moves r.rows r.cursor ⟨request, reply (r.attempt request kind answer).1⟩
        (r.attempt request kind answer).2.cursor := by
  unfold attempt
  simp only
  split
  · exact ⟨rfl, failed _⟩
  · split
    · exact ⟨rfl, failed _⟩
    · next answered =>
      obtain ⟨rows, moves⟩ := fine _ _ _ answered rfl rfl
      exact ⟨rows, moves⟩

/-- **A rehearsal answers a call from its rows.** -/
theorem moves_answer (r : Rehearsal F M) (request : Call F M) :
    (r.answer request).2.rows = r.rows ∧
      Interaction.Moves r.rows r.cursor ⟨request, (r.answer request).1⟩
        (r.answer request).2.cursor := by
  cases request with
  | drain => exact ⟨rfl, rfl⟩
  | read =>
    refine r.moves_attempt .read .read id (fun _ => rfl) fun r' value next h rows cursor => ?_
    have h : r'.nextRow = (value, next) := Except.ok.inj h
    rw [← rows, ← cursor]
    unfold nextRow at h
    split at h
    · next found =>
      cases h
      exact ⟨rfl, found, rfl⟩
    · next past =>
      cases h
      exact ⟨rfl, List.getElem?_eq_none_iff.mp past, rfl⟩
  | sync =>
    refine r.moves_attempt .sync .sync id (fun _ => rfl) fun r' value next h rows cursor => ?_
    unfold passBarrier at h
    split at h <;> cases h
    exact ⟨rows, cursor⟩
  | reopen =>
    refine r.moves_attempt .reopen .reopen id (fun _ => rfl) fun r' value next h rows cursor => ?_
    cases h
    exact ⟨rows, rfl⟩
  | send receiver message =>
    refine r.moves_attempt (.send receiver message) .send id (fun _ => rfl)
      fun r' value next h rows cursor => ?_
    cases h
    exact ⟨rows, cursor⟩
  | write theta cost =>
    refine r.moves_attempt (.write theta cost) .write id (fun _ => rfl)
      fun r' value next h rows cursor => ?_
    cases h
    exact ⟨rows, cursor⟩

/-- To play a program is to have it say something that its rows serve. -/
theorem serves_of_play {r r' : Rehearsal F M} {program : Program F M α} {result : Option α}
    (h : r.play program = (result, r')) :
    ∃ said, program.Says said (result.elim .crash .done) ∧ r'.rows = r.rows ∧
      said.Serves r.rows r.cursor r'.cursor := by
  induction program generalizing r with
  | done value | crash =>
    obtain ⟨rfl, rfl⟩ := Prod.mk.inj h
    exact ⟨[], .nothing, rfl, rfl⟩
  | tell event next ih =>
    obtain ⟨said, told, rows, serves⟩ := ih h
    exact ⟨said, told.tell, rows, serves⟩
  | call request next ih =>
    obtain ⟨rows, moves⟩ := r.moves_answer request
    obtain ⟨said, told, rows', serves⟩ := ih _ h
    exact ⟨_ :: said, .call _ told, rows'.trans rows, _, moves, rows ▸ serves⟩

variable {process : Process F M S ε α}

/-- **A rehearsal goes through rounds that its rows serve**, until the curtain falls. -/
theorem serves_of_rounds {rounds : Nat} {r r' : Rehearsal F M} {dialogue : Dialogue F M}
    {past : List S} {state : S} {curtain : Curtain ε α} {program : Round F M S ε α}
    (comes : process.Comes dialogue past state)
    (h : Rehearsal.rounds process rounds state r = (curtain, r'))
    (left : left? curtain = some program) :
    ∃ more past' last said, process.Comes (dialogue ++ more) past' last ∧
      (process.round last).Says said program ∧
        (more ++ said).Serves r.rows r.cursor r'.cursor := by
  induction rounds generalizing state r dialogue past with
  | zero =>
    obtain ⟨rfl, -⟩ := Prod.mk.inj h
    cases left
  | succ rounds ih =>
    rcases cases_of_rounds h left with ⟨result, played, rfl⟩ | ⟨next, between, played, h⟩
    · obtain ⟨said, told, -, serves⟩ := serves_of_play played
      exact ⟨[], past, state, said, by simpa using comes, told, serves⟩
    · obtain ⟨said, told, rows, serves⟩ := serves_of_play played
      obtain ⟨more, past', last, said', comes, told', serves'⟩ := ih (comes.round told) h
      refine ⟨said ++ more, past', last, said', by simpa using comes, told', ?_⟩
      rw [List.append_assoc, Dialogue.serves_append]
      exact ⟨_, serves, rows ▸ serves'⟩

end Rehearsal

end Superstep
