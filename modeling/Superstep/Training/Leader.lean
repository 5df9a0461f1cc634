import Superstep.Training.Error

/-!
# Electing a leader

One peer of a job leads: it proposes the first parameters, and it alone writes records. No message
is needed to find it. Every peer applies the same policy to the same enumeration of names and
arrives at the same leader.
-/

namespace Superstep

/-- How the leader is chosen. -/
inductive LeaderPolicy
  /-- The peer in the middle of the enumeration, the later one if there are two. -/
  | middle
  /-- The peer with the smallest name. -/
  | smallest
  /-- The peer with this name. -/
  | fixed (name : PeerName)
  deriving DecidableEq, Repr

namespace LeaderPolicy

/-- The smallest of some names. -/
def smallest? : List PeerName → Option PeerName
  | [] => none
  | name :: rest =>
    match smallest? rest with
    | none => some name
    | some other => if name ≤ other then some name else some other

/-- The leader among these peers. -/
def elect {F : Type} (policy : LeaderPolicy) (peers : List PeerName) :
    Except (ConfigError F) PeerName :=
  let chosen :=
    match policy with
    | middle => peers[peers.length / 2]?
    | smallest => smallest? peers
    | fixed name => if name ∈ peers then some name else none
  match chosen, policy with
  | some leader, _ => .ok leader
  | none, fixed name => .error (.unknownLeader name)
  | none, _ => .error (.unknownLeader "<empty job>")

/-- The policy a name stands for, whatever the case of its letters. -/
def ofName {F : Type} (name : String) : Except (ConfigError F) LeaderPolicy :=
  let word := String.ofList (name.toList.map Char.toLower)
  if word = "middle" ∨ word = "middle_index" then .ok middle
  else if word = "smallest" ∨ word = "smallest_id" then .ok smallest
  else .error (.unknownPolicy name)

/-- The words that stand for a policy. That a certain peer leads cannot be said by one. -/
def spellings : LeaderPolicy → List String
  | middle => ["middle", "middle_index"]
  | smallest => ["smallest", "smallest_id"]
  | fixed _ => []

section Names

variable {F : Type} {name : String}

/-- **Which names stand for a policy**: the words for it, in any case. -/
theorem ofName_eq_ok_iff {policy : LeaderPolicy} : ofName (F := F) name = .ok policy ↔
    String.ofList (name.toList.map Char.toLower) ∈ policy.spellings := by
  unfold ofName
  generalize String.ofList (name.toList.map Char.toLower) = word
  cases policy with
  | middle | smallest | fixed => grind [spellings]

/-- Every other name is refused, and told as it was given. -/
theorem ofName_eq_error_iff {failure : ConfigError F} : ofName name = .error failure ↔
    (∀ policy : LeaderPolicy,
      String.ofList (name.toList.map Char.toLower) ∉ policy.spellings) ∧
        failure = .unknownPolicy name := by
  cases read : ofName (F := F) name with
  | ok policy =>
    have spelled := ofName_eq_ok_iff.mp read
    simp only [reduceCtorEq, false_iff, not_and]
    exact fun unspelled => absurd spelled (unspelled policy)
  | error other =>
    have unspelled (policy : LeaderPolicy) :
        String.ofList (name.toList.map Char.toLower) ∉ policy.spellings := by
      intro spelled
      cases read.symm.trans (ofName_eq_ok_iff.mpr spelled)
    have whole : other = .unknownPolicy name := by
      simp only [ofName] at read
      split at read
      · cases read
      · split at read
        · cases read
        · exact (Except.error.inj read).symm
    rw [whole, Except.error.injEq, eq_comm]
    exact ⟨fun same => ⟨unspelled, same⟩, And.right⟩

end Names

/-- The leader is one of the peers. -/
theorem elect_mem {F : Type} {policy : LeaderPolicy} {peers : List PeerName} {leader : PeerName}
    (h : policy.elect (F := F) peers = .ok leader) : leader ∈ peers := by
  have smallest?_mem : ∀ {names : List PeerName} {name}, smallest? names = some name →
      name ∈ names := by
    intro names
    induction names with
    | nil => simp [smallest?]
    | cons first rest ih =>
      intro name h
      unfold smallest? at h
      split at h
      · simp_all
      · next other ho =>
        have := ih ho
        split at h <;> simp_all
  unfold elect at h
  cases policy with
  | middle =>
    cases hc : peers[peers.length / 2]? with
    | none => simp [hc] at h
    | some name =>
      simp only [hc, Except.ok.injEq] at h
      exact h ▸ List.mem_of_getElem? hc
  | smallest =>
    cases hc : smallest? peers with
    | none => simp [hc] at h
    | some name =>
      simp only [hc, Except.ok.injEq] at h
      exact h ▸ smallest?_mem hc
  | fixed name =>
    by_cases hm : name ∈ peers
    · simp only [hm, if_true, Except.ok.injEq] at h
      exact h ▸ hm
    · simp [hm] at h

end LeaderPolicy

end Superstep
