import Mathlib.Data.List.Nodup
import Superstep.Training.Totals

/-!
# Adding up what everybody sent

Every peer sends the same message to everybody else, and so each of them ends up with the
contributions of all: its own and those it received. They arrive in no particular order. But names
are different, so there is only one way to put the contributions in the order of the names
(`Superstep.byName_eq_of_perm`), and all peers add up the same list
(`Superstep.Totals.cost_eq`, `Superstep.Totals.gradient_eq`).
-/

namespace Superstep

variable {F M P E T α β : Type}

/-! ### The order of names -/

/-- Things of peers with different names can be put in the order of the names in one way only. -/
theorem byName_eq_of_perm {name : α → PeerName} {l₁ l₂ : List α} (h : l₁.Perm l₂)
    (nodup : (l₁.map name).Nodup) : byName name l₁ = byName name l₂ := by
  have perm : (byName name l₁).Perm (byName name l₂) :=
    (byName_perm name l₁).trans (h.trans (byName_perm name l₂).symm)
  refine perm.eq_of_pairwise (fun a b ha hb hab hba => ?_) (pairwise_byName name l₁)
    (pairwise_byName name l₂)
  have ha := (byName_perm name l₁).mem_iff.mp ha
  have hb := h.mem_iff.mpr ((byName_perm name l₂).mem_iff.mp hb)
  exact List.inj_on_of_nodup_map nodup ha hb (String.le_antisymm hab hba)

/-- What belongs to a name may be replaced before or after things are put in order. -/
theorem map_byName (f : α → β) (things : List (PeerName × α)) :
    (byName (·.1) things).map (fun thing => (thing.1, f thing.2)) =
      byName (·.1) (things.map fun thing => (thing.1, f thing.2)) :=
  List.map_mergeSort fun _ _ _ _ => rfl

/-! ### What is in an inbox -/

/-- A name is found once among the others, if it is another one. -/
theorem filter_others_eq {names : List PeerName} (nodup : names.Nodup) (me other : PeerName) :
    (names.filter fun name => !(name == me)).filter (· = other) =
      if other ∈ names ∧ other ≠ me then [other] else [] := by
  rw [List.filter_eq, (nodup.filter _).count]
  by_cases h : other ∈ names ∧ other ≠ me
  · rw [if_pos h, if_pos (by simpa using h)]
    rfl
  · rw [if_neg h, if_neg (by simpa using h)]
    rfl

/-- What everybody else says to a peer. -/
def heard (names : List PeerName) (me : PeerName) (say : PeerName → M) : List (Envelope M) :=
  (names.filter fun name => !(name == me)).map fun name => ⟨name, say name⟩

/-- Everybody else says one thing to a peer, and nobody else says anything. -/
theorem filter_heard {names : List PeerName} (nodup : names.Nodup) (me : PeerName)
    (say : PeerName → M) (sender : PeerName) :
    (heard names me say).filter (·.sender = sender) =
      if sender ∈ names ∧ sender ≠ me then [⟨sender, say sender⟩] else [] := by
  rw [heard, List.filter_map]
  refine (congrArg (List.map _) (filter_others_eq nodup me sender)).trans ?_
  split <;> rfl

/-- One message to everybody else. -/
def broadcast (names : List PeerName) (me : PeerName) (message : M) : List (PeerName × M) :=
  (names.filter fun name => !(name == me)).map (·, message)

/-- Of what is sent to everybody else, one message is for a peer, if it is somebody else. -/
theorem mail_broadcast {names : List PeerName} (nodup : names.Nodup) {me sender : PeerName}
    (mem : me ∈ names) (message : M) :
    ((broadcast names sender message).filter (·.1 = me)).map
        (fun mail => (⟨sender, mail.2⟩ : Envelope M)) =
      if sender = me then [] else [⟨sender, message⟩] := by
  rw [broadcast, List.filter_map]
  refine (congrArg (fun list => (list.map (·, message)).map fun mail =>
    (⟨sender, mail.2⟩ : Envelope M)) (filter_others_eq nodup sender me)).trans ?_
  by_cases own : sender = me
  · rw [if_neg fun h => h.2 own.symm, if_pos own]
    rfl
  · rw [if_pos ⟨mem, Ne.symm own⟩, if_neg own]
    rfl

/-- Where everybody sends one message to everybody else, a peer hears what everybody else says. -/
theorem perm_heard {names : List PeerName} (nodup : names.Nodup) {me : PeerName}
    (mem : me ∈ names) {say : PeerName → M} {received : List (Envelope M)}
    (h : ∀ sender, received.filter (·.sender = sender) =
      if sender ∈ names then
        ((broadcast names sender (say sender)).filter (·.1 = me)).map fun mail => ⟨sender, mail.2⟩
      else []) : received.Perm (heard names me say) := by
  refine perm_of_filter_eq Envelope.sender fun sender => ?_
  rw [h, filter_heard nodup, mail_broadcast nodup mem]
  by_cases hs : sender ∈ names <;> by_cases own : sender = me <;> simp [hs, own]

namespace Totals

/-- **What is gathered** is what all others have told, and all of it has been accepted. -/
theorem gather_eq_ok_iff {me : PeerName} {accept : M → Except E P} {received : List (Envelope M)}
    {parts : List (PeerName × P)} : gather me accept received = .ok parts ↔
    (received.filter (·.sender ≠ me)).map (fun e => (e.sender, accept e.message)) =
      parts.map fun part => (part.1, .ok part.2) := by
  induction received generalizing parts with
  | nil => cases parts <;> simp [gather]
  | cons envelope rest ih =>
    by_cases own : envelope.sender = me
    · rw [gather, if_pos own, List.filter_cons_of_neg (by simpa using own), ih]
    · rw [gather, if_neg own, List.filter_cons_of_pos (by simpa using own), List.map_cons]
      cases accepted : accept envelope.message with
      | error failure => cases parts <;> simp [bind, Except.bind]
      | ok part =>
        constructor
        · intro h
          cases gathered : gather me accept rest with
          | error failure =>
            rw [gathered] at h
            cases h
          | ok more =>
            rw [gathered] at h
            cases h
            rw [ih.mp gathered]
            rfl
        · intro h
          cases parts with
          | nil => cases h
          | cons found parts =>
            obtain ⟨sender, found⟩ := found
            obtain ⟨head, tail⟩ := List.cons.inj h
            cases head
            rw [ih.mpr tail]
            rfl

/-- The contributions of everybody else and one's own are the contributions of all. -/
theorem perm_contributions {names : List PeerName} {me : PeerName} {say : PeerName → M}
    {part : PeerName → P} {received : List (Envelope M)} (nodup : names.Nodup) (mem : me ∈ names)
    (h : received.Perm (heard names me say)) :
    ((me, part me) :: received.map fun e => (e.sender, part e.sender)).Perm
      (names.map fun name => (name, part name)) := by
  -- what the others said goes by their names, and one's own name is the one they leave out
  have others : (received.map fun e => (e.sender, part e.sender)).Perm
      ((names.erase me).map fun name => (name, part name)) := by
    refine (h.map _).trans ?_
    rw [heard, List.map_map, nodup.erase_eq_filter]
    exact List.Perm.refl _
  refine (List.Perm.cons _ others).trans ?_
  exact ((List.perm_cons_erase mem).map fun name => (name, part name)).symm

/-- **All peers put the same contributions in the same order.** -/
theorem byName_contributions {names : List PeerName} {me : PeerName} {say : PeerName → M}
    {part : PeerName → P} {received : List (Envelope M)} (nodup : names.Nodup) (mem : me ∈ names)
    (h : received.Perm (heard names me say)) :
    byName (·.1) ((me, part me) :: received.map fun e => (e.sender, part e.sender)) =
      byName (·.1) (names.map fun name => (name, part name)) := by
  refine (byName_eq_of_perm (perm_contributions nodup mem h).symm ?_).symm
  simpa [Function.comp_def] using nodup

/-- Adds up one's own contribution and those of others, in the order of names. -/
def total (accept : M → Except E P) (add : T → P → T) (start : T) (me : PeerName) (own : P)
    (received : List (Envelope M)) : Except E T := do
  let others ← gather me accept received
  return (byName (·.1) ((me, own) :: others)).foldl (fun sum part => add sum part.2) start

/-- **All peers add up the same contributions**, whatever they have sent to themselves. -/
theorem total_eq {accept : M → Except E P} {add : T → P → T} {start : T} (post : P → M)
    {names : List PeerName} {me : PeerName} {part : PeerName → P} {received : List (Envelope M)}
    (nodup : names.Nodup) (mem : me ∈ names)
    (accepted : ∀ name ∈ names, accept (post (part name)) = .ok (part name))
    (h : (received.filter (·.sender ≠ me)).Perm (heard names me fun name => post (part name))) :
    total accept add start me (part me) received =
      .ok ((byName (·.1) (names.map fun name => (name, part name))).foldl
        (fun sum part => add sum part.2) start) := by
  have gathered : gather me accept received =
      .ok ((received.filter (·.sender ≠ me)).map fun e => (e.sender, part e.sender)) := by
    refine gather_eq_ok_iff.mpr ?_
    rw [List.map_map]
    refine List.map_congr_left fun e he => ?_
    obtain ⟨name, hn, rfl⟩ := List.mem_map.mp (h.mem_iff.mp he)
    exact Prod.ext rfl (accepted name (List.mem_filter.mp hn).1)
  rw [total, gathered, ← byName_contributions nodup mem h]
  rfl

/-- Who hears the others has not heard itself. -/
theorem filter_eq_of_perm_heard {names : List PeerName} {me : PeerName} {say : PeerName → M}
    {received : List (Envelope M)} (h : received.Perm (heard names me say)) :
    received.filter (·.sender ≠ me) = received := by
  refine List.filter_eq_self.mpr fun e he => ?_
  obtain ⟨name, hn, rfl⟩ := List.mem_map.mp (h.mem_iff.mp he)
  simpa using (List.mem_filter.mp hn).2

variable [Scalar F]

/-- **All peers add up the same costs.** -/
theorem cost_eq {names : List PeerName} {me : PeerName} (part : PeerName → PartialCost F)
    {received : List (Envelope (Payload F))} (nodup : names.Nodup) (mem : me ∈ names)
    (h : received.Perm (heard names me fun name => .cost (part name).sum (part name).count)) :
    cost me (part me) received =
      .ok ((byName (·.1) (names.map fun name => (name, part name))).foldl
        (fun total part => total.merge part.2) .zero) := by
  rw [← filter_eq_of_perm_heard h] at h
  exact total_eq (fun part : PartialCost F => .cost part.sum part.count) nodup mem
    (fun _ _ => rfl) h

omit [Scalar F] in
theorem acceptGradient_of_length {size : Nat} {values : List F} (h : values.length = size) :
    acceptGradient size (.gradient values) = .ok values :=
  if_pos h

/-- **All peers add up the same gradients**, if these have the same number of entries. -/
theorem gradient_eq {names : List PeerName} {me : PeerName} (part : PeerName → List F)
    {received : List (Envelope (Payload F))} {size : Nat} (nodup : names.Nodup) (mem : me ∈ names)
    (length : ∀ name ∈ names, (part name).length = size)
    (h : received.Perm (heard names me fun name => .gradient (part name))) :
    gradient me (part me) received =
      .ok ((byName (·.1) (names.map fun name => (name, part name))).foldl
        (fun total part => addEntries total part.2) (List.replicate size Scalar.zero)) := by
  rw [← filter_eq_of_perm_heard h] at h
  rw [← length me mem]
  exact total_eq .gradient nodup mem
    (fun name hn => acceptGradient_of_length ((length name hn).trans (length me mem).symm)) h

end Totals

end Superstep
