import Mathlib.Algebra.GroupWithZero.Nat
import Superstep.Proofs.Cluster.Solo
import Superstep.Proofs.Peer.Bytes
import Superstep.Proofs.Training.Exchange

/-!
# What a total depends on

All peers are to arrive at the same totals, to the last bit. Additions of floating point numbers may
not be exchanged, so this is a matter of their order alone, and nothing in this file says what an
addition is.

`Superstep.Totals.Impartial` says what is asked of a way of adding up, whatever the contributions
are.

* The peers of a job, each of which has told its part to all others, get the same total: that of all
  parts in the order of the bytes of their names. It matters neither in what order the parts arrive
  nor what a peer has sent to itself.
* In any case, also if peers tell more than one part, the total depends only on what each of the
  others has told, in the order in which it has told it.
* There is no total exactly if something is wrong with an envelope of somebody else; the first of
  these to arrive says what is wrong.

Costs and gradients are both added up in this way (`Superstep.Totals.impartial`). They differ in
what can be wrong with a message (`Superstep.Payload.costFault?`,
`Superstep.Payload.gradientFault?`).
-/

namespace Superstep

variable {F M P E T : Type}

/-! ### What can be wrong with a message -/

/-- What is wrong with a message where costs are expected. -/
def Payload.costFault? : Payload F → Option (TrainingError F)
  | .cost _ _ => none
  | .theta _ => some (.unexpectedMessage .cost "theta")
  | .gradient _ => some (.unexpectedMessage .cost "gradient")

/-- What is wrong with a message where gradients of so many entries are expected. -/
def Payload.gradientFault? (size : Nat) : Payload F → Option (TrainingError F)
  | .gradient values =>
    if values.length = size then none
    else some (.dimensionMismatch "gradient" values.length size)
  | .theta _ => some (.unexpectedMessage .gradient "theta")
  | .cost _ _ => some (.unexpectedMessage .gradient "cost")

/-- **The first fault** among envelopes of others, in order of arrival. -/
def FirstFault (me : PeerName) (fault? : M → Option E) (received : List (Envelope M))
    (failure : E) : Prop :=
  ∃ before envelope after, received = before ++ envelope :: after ∧ envelope.sender ≠ me ∧
    fault? envelope.message = some failure ∧
      ∀ other ∈ before, other.sender ≠ me → fault? other.message = none

/-- The first fault, as it is looked for. -/
theorem firstFault_iff {me : PeerName} {fault? : M → Option E} {received : List (Envelope M)}
    {failure : E} : FirstFault me fault? received failure ↔
      received.findSome? (fun envelope =>
        if envelope.sender = me then none else fault? envelope.message) = some failure := by
  rw [List.findSome?_eq_some_iff]
  refine exists_congr fun before => exists_congr fun envelope => exists_congr fun after => ?_
  refine and_congr_right fun _ => ?_
  constructor
  · rintro ⟨other, fault, fine⟩
    refine ⟨by rw [if_neg other, fault], fun e he => ?_⟩
    split
    · rfl
    · next others => exact fine e he others
  · rintro ⟨fault, fine⟩
    split at fault
    · cases fault
    · next other =>
      refine ⟨other, fault, fun e he others => ?_⟩
      have := fine e he
      rwa [if_neg others] at this

/-- Where something is wrong, something is wrong first. -/
theorem exists_firstFault_iff {me : PeerName} {fault? : M → Option E}
    {received : List (Envelope M)} : (∃ failure, FirstFault me fault? received failure) ↔
      ∃ envelope ∈ received, envelope.sender ≠ me ∧
        ∃ failure, fault? envelope.message = some failure := by
  simp only [firstFault_iff, ← Option.isSome_iff_exists, List.findSome?_isSome_iff]
  refine exists_congr fun envelope => and_congr_right fun _ => ?_
  split <;> simp [*]

namespace Totals

/-! ### Gathering contributions -/

section Gather

variable {me : PeerName} {accept : M → Except E P} {fault? : M → Option E}
  {received received' : List (Envelope M)} {parts parts' : List (PeerName × P)}

/-- **Gathering fails with the first fault.** -/
theorem gather_eq_error_iff
    (faults : ∀ message failure, accept message = .error failure ↔ fault? message = some failure)
    {failure : E} :
    gather me accept received = .error failure ↔ FirstFault me fault? received failure := by
  rw [firstFault_iff]
  induction received with
  | nil => simp [gather]
  | cons envelope rest ih =>
    rw [List.findSome?_cons]
    by_cases own : envelope.sender = me
    · rw [gather, if_pos own, if_pos own, ih]
    · rw [gather, if_neg own, if_neg own]
      cases fault : fault? envelope.message with
      | some found =>
        rw [(faults _ _).mpr fault]
        simp [bind, Except.bind]
      | none =>
        cases accepted : accept envelope.message with
        | error found => simp [(faults _ _).mp accepted] at fault
        | ok part =>
          rw [← ih]
          cases gather me accept rest <;> simp [bind, Except.bind, pure, Except.pure]

/-- What is gathered from one of the others is what that one has told. -/
theorem map_filter_of_gather (h : gather me accept received = .ok parts) {sender : PeerName}
    (other : sender ≠ me) :
    (received.filter (·.sender = sender)).map (fun e => (e.sender, accept e.message)) =
      (parts.filter (·.1 = sender)).map fun part => (part.1, .ok part.2) := by
  have told := congrArg (List.filter (·.1 = sender)) (gather_eq_ok_iff.mp h)
  rw [List.filter_map, List.filter_map, List.filter_filter] at told
  refine Eq.trans (congrArg _ (List.filter_congr fun e _ => ?_)) told
  by_cases its : e.sender = sender
  · simp [its, other]
  · simp [its]

/-- What the contributions are in the order of names depends only on what each of the others has
told. -/
theorem byName_of_gather (h : gather me accept received = .ok parts)
    (h' : gather me accept received' = .ok parts') (own : P)
    (same : ∀ sender, sender ≠ me →
      received.filter (·.sender = sender) = received'.filter (·.sender = sender)) :
    byName (·.1) ((me, own) :: parts) = byName (·.1) ((me, own) :: parts') := by
  have accepted : Function.Injective fun part : PeerName × P =>
      ((part.1, .ok part.2) : PeerName × Except E P) := by
    rintro ⟨a, b⟩ ⟨a', b'⟩ equal
    cases equal
    rfl
  -- nothing is gathered from oneself
  have none {received : List (Envelope M)} {parts : List (PeerName × P)}
      (h : gather me accept received = .ok parts) : parts.filter (·.1 = me) = [] := by
    refine List.filter_eq_nil_iff.mpr fun part mem => ?_
    have mem : (part.1, Except.ok part.2) ∈ (received.filter (·.sender ≠ me)).map
        (fun e => (e.sender, accept e.message)) :=
      gather_eq_ok_iff.mp h ▸ List.mem_map_of_mem mem
    obtain ⟨e, he, equal⟩ := List.mem_map.mp mem
    rw [← congrArg Prod.fst equal]
    simpa using (List.mem_filter.mp he).2
  refine byName_eq_of_filter_eq fun sender => ?_
  by_cases its : sender = me
  · subst its
    rw [List.filter_cons, List.filter_cons, none h, none h']
  · have told := map_filter_of_gather h its
    rw [same sender its, map_filter_of_gather h' its] at told
    rw [List.filter_cons_of_neg (by simpa using Ne.symm its),
      List.filter_cons_of_neg (by simpa using Ne.symm its),
      List.map_injective_iff.mpr accepted told]

end Gather

/-! ### Any way of adding up -/

section Total

variable {accept : M → Except E P} {fault? : M → Option E} {add : T → P → T} {start : T}
  {me : PeerName} {own : P} {received received' : List (Envelope M)}

theorem total_eq_error_iff
    (faults : ∀ message failure, accept message = .error failure ↔ fault? message = some failure)
    {failure : E} : total accept add start me own received = .error failure ↔
      FirstFault me fault? received failure := by
  rw [← gather_eq_error_iff faults, total]
  cases gather me accept received <;> simp [bind, Except.bind, pure, Except.pure]

/-- **A total depends only on what each of the others has told.** -/
theorem total_toOption_eq
    (faults : ∀ message failure, accept message = .error failure ↔ fault? message = some failure)
    (same : ∀ sender, sender ≠ me →
      received.filter (·.sender = sender) = received'.filter (·.sender = sender)) :
    (total accept add start me own received).toOption =
      (total accept add start me own received').toOption := by
  -- what is wrong in one inbox is wrong in the other
  have fault {received received' : List (Envelope M)} (same : ∀ sender, sender ≠ me →
      received.filter (·.sender = sender) = received'.filter (·.sender = sender))
      (h : ∃ failure, FirstFault me fault? received failure) :
      ∃ failure, FirstFault me fault? received' failure := by
    obtain ⟨e, he, other, wrong⟩ := exists_firstFault_iff.mp h
    have mem : e ∈ received.filter (·.sender = e.sender) := List.mem_filter.mpr ⟨he, by simp⟩
    rw [same e.sender other] at mem
    exact exists_firstFault_iff.mpr ⟨e, (List.mem_filter.mp mem).1, other, wrong⟩
  cases h : gather me accept received with
  | error failure =>
    obtain ⟨failure', h'⟩ := fault same ⟨failure, (gather_eq_error_iff faults).mp h⟩
    rw [total, total, h, (gather_eq_error_iff faults).mpr h']
    rfl
  | ok parts =>
    cases h' : gather me accept received' with
    | error failure' =>
      obtain ⟨failure, wrong⟩ := fault (fun sender other => (same sender other).symm)
        ⟨failure', (gather_eq_error_iff faults).mp h'⟩
      rw [(gather_eq_error_iff faults).mpr wrong] at h
      cases h
    | ok parts' =>
      rw [total, total, h, h']
      change some _ = some _
      rw [byName_of_gather h h' own same]

/-- **All peers get the total of all parts**, each once and in the order of names. -/
theorem total_eq_ok (post : P → M) {names ordered : List PeerName} {part : PeerName → P}
    (nodup : names.Nodup) (mem : me ∈ names)
    (accepted : ∀ name ∈ names, accept (post (part name)) = .ok (part name))
    (h : (received.filter (·.sender ≠ me)).Perm (heard names me fun name => post (part name)))
    (perm : ordered.Perm names) (sorted : ordered.Pairwise fun a b => a ≤ b) :
    total accept add start me (part me) received = .ok ((ordered.map part).foldl add start) := by
  -- there is one way only to put the names in order
  have inOrder : byName (·.1) (names.map fun name => (name, part name)) =
      ordered.map fun name => (name, part name) := by
    rw [← byName_eq_of_perm (perm.map fun name => (name, part name))
      (by simpa [Function.comp_def] using perm.nodup_iff.mpr nodup)]
    refine List.mergeSort_of_pairwise ?_
    exact List.pairwise_map.mpr (sorted.imp fun le => decide_eq_true le)
  rw [total_eq post nodup mem accepted h, inOrder, List.foldl_map, List.foldl_map]

end Total

/-! ### Costs and gradients -/

theorem acceptCost_eq_error_iff (message : Payload F) (failure : TrainingError F) :
    acceptCost message = .error failure ↔ message.costFault? = some failure := by
  cases message <;> simp [acceptCost, Payload.costFault?, Payload.kind]

theorem acceptGradient_eq_error_iff (size : Nat) (message : Payload F)
    (failure : TrainingError F) :
    acceptGradient size message = .error failure ↔
      message.gradientFault? size = some failure := by
  cases message with
  | gradient values =>
    simp only [acceptGradient, Payload.gradientFault?]
    split <;> simp
  | _ => simp [acceptGradient, Payload.gradientFault?, Payload.kind]

variable [Scalar F]

/-- The costs of all parts, added up from zero, and the number of all rows, in a machine word. -/
def sumOfCosts (parts : List (PartialCost F)) : PartialCost F :=
  ⟨(parts.map (·.sum)).foldl (· + ·) Scalar.zero,
    UInt64.ofNat (parts.map fun part => part.count.toNat).sum⟩

/-- The gradients of all parts, added up from zero entry by entry. -/
def sumOfGradients (size : Nat) (parts : List (List F)) : List F :=
  (List.range size).map fun i =>
    (parts.map fun part => part.getD i Scalar.zero).foldl (· + ·) Scalar.zero

theorem foldl_merge (parts : List (PartialCost F)) :
    parts.foldl PartialCost.merge .zero = sumOfCosts parts := by
  suffices ∀ start : PartialCost F, parts.foldl PartialCost.merge start =
      ⟨(parts.map (·.sum)).foldl (· + ·) start.sum,
        start.count + UInt64.ofNat (parts.map fun part => part.count.toNat).sum⟩ by
    simpa [PartialCost.zero, sumOfCosts] using this .zero
  induction parts with
  | nil => simp
  | cons part rest ih =>
    intro start
    rw [List.foldl_cons, ih]
    simp [PartialCost.merge, UInt64.ofNat_add, UInt64.add_assoc]

/-- No rows get lost in a machine word, as long as they fit into one. -/
theorem count_sumOfCosts {parts : List (PartialCost F)}
    (fits : (parts.map fun part => part.count.toNat).sum < wordLimit) :
    (sumOfCosts parts).count.toNat = (parts.map fun part => part.count.toNat).sum :=
  UInt64.toNat_ofNat_of_lt' fits

theorem foldl_addEntries {size : Nat} {parts : List (List F)}
    (level : ∀ part ∈ parts, part.length = size) :
    parts.foldl addEntries (List.replicate size Scalar.zero) = sumOfGradients size parts := by
  suffices ∀ start : List F, start.length = size → parts.foldl addEntries start =
      (List.range size).map fun i =>
        (parts.map fun part => part.getD i Scalar.zero).foldl (· + ·)
          (start.getD i Scalar.zero) by
    rw [this _ (by simp), sumOfGradients]
    refine List.map_congr_left fun i hi => ?_
    simp [List.mem_range.mp hi]
  induction parts with
  | nil =>
    intro start hs
    refine List.ext_getElem (by simp [hs]) fun i hi _ => ?_
    rw [List.foldl_nil] at hi
    simp [hi]
  | cons part rest ih =>
    intro start hs
    obtain ⟨hp, level⟩ := List.forall_mem_cons.mp level
    rw [List.foldl_cons, ih level _ (by simp [addEntries, hs, hp])]
    refine List.map_congr_left fun i hi => ?_
    have hi := List.mem_range.mp hi
    simp [addEntries, hs, hp, hi]

omit [Scalar F] in
theorem length_of_acceptGradient {size : Nat} {message : Payload F} {values : List F}
    (h : acceptGradient size message = .ok values) : values.length = size := by
  cases message with
  | gradient values' =>
    simp only [acceptGradient] at h
    split at h
    · next level =>
      cases h
      exact level
    · cases h
  | theta | cost => cases h

/-- The total of gradients has as many entries as one's own. -/
theorem length_of_gradient {me : PeerName} {own values : List F}
    {received : List (Envelope (Payload F))} (h : gradient me own received = .ok values) :
    values.length = own.length := by
  cases gathered : gather me (acceptGradient own.length) received with
  | error failure =>
    rw [gradient, gathered] at h
    cases h
  | ok parts =>
    rw [gradient, gathered] at h
    cases h
    have level : ∀ part ∈ (byName (·.1) ((me, own) :: parts)).map (·.2),
        part.length = own.length := by
      intro values hv
      obtain ⟨part, mem, rfl⟩ := List.mem_map.mp hv
      rcases List.mem_cons.mp ((byName_perm _ _).mem_iff.mp mem) with rfl | mem
      · rfl
      · have told : (part.1, Except.ok part.2) ∈ (received.filter (·.sender ≠ me)).map
            (fun e => (e.sender, acceptGradient own.length e.message)) :=
          gather_eq_ok_iff.mp gathered ▸ List.mem_map_of_mem mem
        obtain ⟨e, -, same⟩ := List.mem_map.mp told
        exact length_of_acceptGradient (congrArg Prod.snd same)
    rw [← List.foldl_map, foldl_addEntries level]
    simp [sumOfGradients]

/-- **A way of adding up that is the same for all peers.** Here `post` is the message in which a
part is told, `fits` holds of the parts that can be added up, `sum` says what comes out, and
`fault?` what is wrong with a message in view of one's own part. -/
structure Impartial (total : PeerName → P → List (Envelope M) → Except E T) (post : P → M)
    (fits : P → Prop) (sum : List P → T) (fault? : P → M → Option E) : Prop where
  /-- Each peer of a job gets the total of all parts in the order of the bytes of their names,
  whatever the order in which the parts of the others arrive and whatever it has sent to itself. -/
  agree : ∀ (names : List PeerName) (part : PeerName → P), names.Nodup →
    (∀ name ∈ names, fits (part name)) →
    ∀ ordered : List PeerName, ordered.Perm names →
    (ordered.Pairwise fun a b => utf8 a ≤ utf8 b) →
    ∀ me ∈ names, ∀ received : List (Envelope M),
    (received.filter (·.sender ≠ me)).Perm (heard names me fun name => post (part name)) →
      total me (part me) received = .ok (sum (ordered.map part))
  /-- The total depends only on what each of the others has sent. -/
  depends : ∀ (me : PeerName) (own : P) (received received' : List (Envelope M)),
    (∀ sender, sender ≠ me →
      received.filter (·.sender = sender) = received'.filter (·.sender = sender)) →
      (total me own received).toOption = (total me own received').toOption
  /-- There is no total exactly if something is wrong with an envelope of somebody else. -/
  fails : ∀ (me : PeerName) (own : P) (received : List (Envelope M)),
    (∃ failure, total me own received = .error failure) ↔
      ∃ envelope ∈ received, envelope.sender ≠ me ∧
        ∃ failure, fault? own envelope.message = some failure
  /-- The failure is the first fault in order of arrival. -/
  first : ∀ (me : PeerName) (own : P) (received : List (Envelope M)) (failure : E),
    total me own received = .error failure ↔ FirstFault me (fault? own) received failure

/-- **Costs are added up in the same way by all peers.** -/
theorem impartial_cost : Impartial (cost (F := F)) (fun part => .cost part.sum part.count)
    (fun _ => True) sumOfCosts fun _ => Payload.costFault? where
  agree names part nodup _ ordered perm sorted me mem received h := by
    rw [← foldl_merge]
    exact total_eq_ok (fun part : PartialCost F => .cost part.sum part.count) nodup mem
      (fun _ _ => rfl) h perm (sorted.imp fun le => le_iff_utf8_le.mpr le)
  depends me own received received' same := total_toOption_eq acceptCost_eq_error_iff same
  first me own received failure := total_eq_error_iff acceptCost_eq_error_iff
  fails me own received := by
    rw [← exists_firstFault_iff]
    exact exists_congr fun failure => total_eq_error_iff acceptCost_eq_error_iff

/-- **Gradients are added up in the same way by all peers.** -/
theorem impartial_gradient (size : Nat) : Impartial (gradient (F := F)) .gradient
    (·.length = size) (sumOfGradients size) fun own => Payload.gradientFault? own.length where
  agree names part nodup level ordered perm sorted me mem received h := by
    have fits : ∀ values ∈ ordered.map part, values.length = size := by
      intro values hv
      obtain ⟨name, hn, rfl⟩ := List.mem_map.mp hv
      exact level name (perm.mem_iff.mp hn)
    rw [← foldl_addEntries fits, ← level me mem]
    exact total_eq_ok .gradient nodup mem
      (fun name hn => acceptGradient_of_length ((level name hn).trans (level me mem).symm)) h perm
      (sorted.imp fun le => le_iff_utf8_le.mpr le)
  depends me own received received' same :=
    total_toOption_eq (acceptGradient_eq_error_iff own.length) same
  first me own received failure := total_eq_error_iff (acceptGradient_eq_error_iff own.length)
  fails me own received := by
    rw [← exists_firstFault_iff]
    exact exists_congr fun failure => total_eq_error_iff (acceptGradient_eq_error_iff own.length)

variable (F) in
/-- **Costs and gradients are added up in the same way by all peers**, and of costs it is known how
many rows they cover. -/
theorem impartial :
    Impartial (cost (F := F)) (fun part => .cost part.sum part.count) (fun _ => True) sumOfCosts
        (fun _ => Payload.costFault?) ∧
      (∀ parts : List (PartialCost F), (parts.map fun part => part.count.toNat).sum < wordLimit →
        (sumOfCosts parts).count.toNat = (parts.map fun part => part.count.toNat).sum) ∧
      ∀ size, Impartial (gradient (F := F)) .gradient (·.length = size) (sumOfGradients size)
        fun own => Payload.gradientFault? own.length :=
  ⟨impartial_cost, fun _ => count_sumOfCosts, impartial_gradient⟩

/-- Two of three peers that add up a tenth, two tenths and three tenths. They hear of the parts in
different orders, and one of them has also sent itself something that is no cost. -/
theorem impartial_tenths :
    cost "a" ⟨0.1, 1⟩ [⟨"c", .cost 0.3 1⟩, ⟨"a", .gradient []⟩, ⟨"b", .cost 0.2 1⟩] =
        .ok (⟨0.0 + 0.1 + 0.2 + 0.3, 3⟩ : PartialCost Float) ∧
      cost "c" ⟨0.3, 1⟩ [⟨"a", .cost 0.1 1⟩, ⟨"b", .cost 0.2 1⟩] =
        .ok (⟨0.0 + 0.1 + 0.2 + 0.3, 3⟩ : PartialCost Float) := by
  let part : PeerName → PartialCost Float := fun name =>
    if name = "a" then ⟨0.1, 1⟩ else if name = "b" then ⟨0.2, 1⟩ else ⟨0.3, 1⟩
  have sum := (impartial Float).1.agree ["c", "a", "b"] part (by decide) (fun _ _ => trivial)
    ["a", "b", "c"] (by decide) (by decide +kernel)
  exact ⟨sum "a" (by decide) _ (by decide +kernel), sum "c" (by decide) _ (by decide +kernel)⟩

end Totals

end Superstep
