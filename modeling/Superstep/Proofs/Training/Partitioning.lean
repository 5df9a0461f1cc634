import Superstep.Proofs.Data.Spans
import Superstep.Proofs.Training.Exact
import Superstep.Proofs.Training.Refinement

/-!
# Who owns which rows does not matter

With exact numbers the same rows can be shared out among peers in any way, and among any number of
them: the peers go through the same parameters and the same mean costs, and end in the same way or
go on for ever (`Superstep.Setting.Alike`). Only the leader must have a row, for it has to tell the
number of parameters from it.

In particular, to share the rows of a dataset out in spans (`Superstep.Dataset.split`) comes to the
same as to train on the whole dataset alone.
-/

namespace Superstep

variable {F : Type} [Scalar F]

namespace Setting

/-! ### Jobs that go the same way -/

/-- **Two training jobs go the same way.** -/
structure Alike (t t' : Setting F) : Prop where
  /-- They carry out one loop. -/
  loop : ∃ loop, (∀ chronicle y, t.execution.Runs chronicle y → t.Refines loop chronicle y) ∧
    ∀ chronicle y, t'.execution.Runs chronicle y → t'.Refines loop chronicle y
  /-- After as many iterations their peers hold the same parameters and the same mean cost. -/
  held : ∀ y y', t.execution.Reaches y → t'.execution.Reaches y' →
    ∀ s ∈ y.stations, ∀ s' ∈ y'.stations, ∀ state sum state' sum',
      s.activity = .running (.done (.ok (.goOn (.scoring state sum)))) →
      s'.activity = .running (.done (.ok (.goOn (.scoring state' sum')))) →
      state.iteration = state'.iteration → state = state'
  /-- Both end, and in the same way, or both go on for ever. -/
  ends : (∃ result, (t.execution.Inevitable fun y => y.ending? = some (t.ending result)) ∧
      t'.execution.Inevitable fun y => y.ending? = some (t'.ending result)) ∨
    ∀ supersteps,
      (t.execution.Inevitable fun y =>
        y.ending? = none ∧ ∀ s ∈ y.stations, supersteps ≤ s.superstep) ∧
      t'.execution.Inevitable fun y =>
        y.ending? = none ∧ ∀ s ∈ y.stations, supersteps ≤ s.superstep

variable {t t' : Setting F} {width : Nat}

/-- **Jobs that carry out one loop go the same way.** -/
theorem alike_of_loop_eq (probed : t.Probed) (probed' : t'.Probed)
    (fit : ∀ peer ∈ t.cluster.names, t.Fits peer) (fit' : ∀ peer ∈ t'.cluster.names, t'.Fits peer)
    (same : t.loop = t'.loop) : t.Alike t' := by
  have refines : ∀ chronicle y, t.execution.Runs chronicle y → t.Refines t.loop chronicle y := by
    intro chronicle y run
    obtain ⟨marks, h⟩ := conduct run
    exact refines_of_conduct h probed fit
  have refines' : ∀ chronicle y, t'.execution.Runs chronicle y →
      t'.Refines t.loop chronicle y := by
    intro chronicle y run
    obtain ⟨marks, h⟩ := conduct run
    rw [same]
    exact refines_of_conduct h probed' fit'
  refine ⟨⟨t.loop, refines, refines'⟩, ?_, ?_⟩
  · rintro y y' ⟨chronicle, run⟩ ⟨chronicle', run'⟩ s hs s' hs' state sum state' sum' ha ha' hi
    obtain ⟨j, -, hj, -⟩ := (refines chronicle y run).scoring s hs state sum ha
    obtain ⟨j', -, hj', -⟩ := (refines' chronicle' y' run').scoring s' hs' state' sum' ha'
    obtain rfl : j = j' := by
      rw [← Loop.iteration_of_state hj, hi, Loop.iteration_of_state hj']
    exact Option.some.inj (hj.symm.trans hj')
  · -- the one loop ends or it does not, and both jobs follow it
    by_cases ends : ∃ j result, t.loop.result j = some result
    · obtain ⟨j, result, hr⟩ := ends
      exact .inl ⟨result, inevitable_ending probed fit hr,
        inevitable_ending probed' fit' (same ▸ hr)⟩
    · have endless : ∀ j, t.loop.result j = none := by
        intro j
        refine Option.eq_none_iff_forall_ne_some.mpr fun result hr => ?_
        exact ends ⟨j, result, hr⟩
      exact .inr fun supersteps => ⟨inevitable_superstep probed fit endless supersteps,
        inevitable_superstep probed' fit' (same ▸ endless) supersteps⟩

/-- With exact numbers, who owns which rows does not matter. -/
theorem alike_of_perm [Scalar.Exact F] (config : t.config = t'.config) (model : t.model = t'.model)
    (uniform : t.cluster.Uniform width) (uniform' : t'.cluster.Uniform width)
    (rows : (t.cluster.partitions.flatMap (·.rows)).Perm (t'.cluster.partitions.flatMap (·.rows)))
    (owns : (t.partition t.leader).rows ≠ []) (owns' : (t'.partition t'.leader).rows ≠ []) :
    t.Alike t' := by
  refine alike_of_loop_eq (probed_of_uniform uniform owns) (probed_of_uniform uniform' owns')
    (fun peer hp => fits_of_uniform uniform owns hp)
    (fun peer hp => fits_of_uniform uniform' owns' hp) ?_
  rw [loop, loop, width_eq uniform owns, width_eq uniform' owns', config, model,
    Loop.ofShares_eq_ofRows, Loop.ofShares_eq_ofRows, Cluster.flatMap_shares,
    Cluster.flatMap_shares]
  exact Loop.ofRows_perm _ _ _ rows

/-! ### Datasets -/

/-- Partitions of the rows of a dataset are as wide as the dataset. -/
theorem uniform_of_dataset {d : Dataset F} (regular : d.Regular)
    (h : ∀ p ∈ t.cluster.partitions,
      p.featureCount = d.featureCount ∧ ∀ row ∈ p.rows, row ∈ d.rows) :
    t.cluster.Uniform d.featureCount :=
  ⟨regular.pos, regular.countable, fun p hp => (h p hp).1,
    fun p hp row hr => regular.rows row ((h p hp).2 row hr)⟩

/-- With exact numbers, training on the spans of a dataset is training on the dataset. -/
theorem alike_of_split [Scalar.Exact F] {d : Dataset F} (regular : d.Regular)
    (config : t.config = t'.config) (model : t.model = t'.model)
    (split : t.cluster.partitions = d.split t.cluster.names.length)
    (whole : t'.cluster.partitions = [d.toPartition])
    (owns : (t.partition t.leader).rows ≠ []) : t.Alike t' := by
  have parts : ∀ p ∈ t.cluster.partitions,
      p.featureCount = d.featureCount ∧ ∀ row ∈ p.rows, row ∈ d.rows :=
    fun p hp => d.of_mem_split (split ▸ hp)
  have all : t'.partition t'.leader = d.toPartition := by
    have mem := Cluster.partitionOf_mem t'.leader_mem
    rw [whole] at mem
    exact List.mem_singleton.mp mem
  have whole' : ∀ p ∈ t'.cluster.partitions,
      p.featureCount = d.featureCount ∧ ∀ row ∈ p.rows, row ∈ d.rows := by
    intro p hp
    rw [whole] at hp
    obtain rfl := List.mem_singleton.mp hp
    exact ⟨rfl, fun row hr => hr⟩
  refine alike_of_perm config model (uniform_of_dataset regular parts)
    (uniform_of_dataset regular whole') ?_ owns ?_
  · have pos : 0 < t.cluster.names.length := List.length_pos_iff.mpr t.cluster.names_ne_nil
    rw [split, whole, d.flatMap_split pos, List.flatMap_singleton]
    exact List.Perm.refl _
  · obtain ⟨row, hr⟩ := List.exists_mem_of_ne_nil _ owns
    rw [all]
    exact List.ne_nil_of_mem ((parts _ (Cluster.partitionOf_mem t.leader_mem)).2 row hr)

/-- **With exact numbers, who owns which rows does not matter.** Two clusters on which the same rows
are shared out in two ways, with a row for the leader in both, go the same way; so does a cluster on
which a dataset is shared out in spans and a single peer that owns all of it. -/
theorem alike_of_same_rows :
    (∀ (t t' : Setting ℚ) (width : Nat), t.config = t'.config → t.model = t'.model →
      t.cluster.Uniform width → t'.cluster.Uniform width →
      (t.cluster.partitions.flatMap (·.rows)).Perm (t'.cluster.partitions.flatMap (·.rows)) →
      (t.partition t.leader).rows ≠ [] → (t'.partition t'.leader).rows ≠ [] → t.Alike t') ∧
    ∀ (d : Dataset ℚ) (t t' : Setting ℚ), d.Regular → t.config = t'.config → t.model = t'.model →
      t.cluster.partitions = d.split t.cluster.names.length →
      t'.cluster.partitions = [d.toPartition] →
      (t.partition t.leader).rows ≠ [] → t.Alike t' :=
  ⟨fun _ _ _ config model uniform uniform' rows owns owns' =>
    alike_of_perm config model uniform uniform' rows owns owns',
    fun _ _ _ regular config model split whole owns =>
      alike_of_split regular config model split whole owns⟩

/-- The rows that are shared out between two peers in `line`. -/
def lineDataset : Dataset ℚ := ⟨1, [⟨[1], 2⟩, ⟨[2], 4⟩]⟩

/-- A single peer that owns all rows. -/
def lineAlone : Setting ℚ where
  cluster :=
    { names := ["c"]
      partitions := [lineDataset.toPartition]
      names_ne_nil := by decide
      length_partitions := rfl
      nodup_names := by decide }
  config := line.config
  model := line.model
  leader := "c"
  unread := Cluster.unread_of_toPartition rfl
  valid := line.valid
  elected := by decide

/-- The two peers and the single one go the same way. -/
theorem alike_line : line.Alike lineAlone := by
  refine alike_of_same_rows.2 lineDataset line lineAlone ⟨Nat.one_pos, by decide, ?_⟩
    rfl rfl rfl rfl owns_line
  simp [lineDataset]

end Setting

end Superstep
