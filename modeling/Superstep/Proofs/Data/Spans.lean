import Mathlib.Data.List.Basic
import Superstep.Data.Dataset

/-!
# Rows in equal spans

A dataset is shared out in contiguous spans, and where a span begins and ends is a matter of
rounding: with `R` rows and `n` peers, span `i` ends where span `i + 1` begins, at
`R * (i + 1) / n`. So nothing lies between two spans or in both of them
(`Superstep.Dataset.flatMap_split`), and since each span ends `R / n` rows later than it begins, or
one more (`Superstep.Dataset.bound_succ_le`, `Superstep.Dataset.le_bound_succ`), no span is longer
than another by more than one row.
-/

namespace Superstep

namespace Dataset

variable {F : Type}

/-! ### Rows of one width -/

/-- All rows are as wide as they are said to be, and a word counts that width and the label. -/
structure Regular (d : Dataset F) : Prop where
  pos : 0 < d.featureCount
  countable : d.featureCount + 1 < wordLimit
  rows : ∀ row ∈ d.rows, row.features.length = d.featureCount

theorem length_of_mem_takeRows {featureCount count : Nat} {values : List F} {row : Sample F}
    (h : row ∈ takeRows featureCount count values) : row.features.length = featureCount := by
  induction count generalizing values with
  | zero => cases h
  | succ count ih =>
    unfold takeRows at h
    split at h
    · cases h
    · next label rest hd =>
      rcases List.mem_cons.mp h with rfl | h
      · have := congrArg List.length hd
        rw [List.length_drop, List.length_cons] at this
        simp only [List.length_take]
        omega
      · exact ih h

/-- Whatever can be cut into rows is cut into rows of one width. -/
theorem regular_of_ofValues {values : List F} {featureCount : Nat} {d : Dataset F}
    (h : ofValues values featureCount = .ok d) : d.Regular := by
  unfold ofValues at h
  split at h
  · cases h
  · next pos =>
    split at h
    · cases h
    · next countable =>
      split at h
      · cases h
      · obtain rfl := Except.ok.inj h
        exact ⟨Nat.pos_of_ne_zero pos, Nat.lt_of_not_le countable,
          fun row hr => length_of_mem_takeRows hr⟩

/-! ### Where spans begin and end -/

variable (d : Dataset F)

theorem bound_mono {n i j : Nat} (h : i ≤ j) : d.bound n i ≤ d.bound n j :=
  Nat.div_le_div_right (Nat.mul_le_mul_left _ h)

@[simp] theorem bound_zero (n : Nat) : d.bound n 0 = 0 := by simp [bound]

/-- The last span ends with the last row. -/
theorem bound_self {n : Nat} (h : 0 < n) : d.bound n n = d.size := Nat.mul_div_cancel _ h

theorem bound_le_size {n i : Nat} (h : i ≤ n) : d.bound n i ≤ d.size := by
  rcases Nat.eq_zero_or_pos n with rfl | pos
  · simp [bound]
  · rw [← d.bound_self pos]
    exact d.bound_mono h

/-- A span ends at least an equal share of rows later than it begins. -/
theorem le_bound_succ (n i : Nat) : d.bound n i + d.size / n ≤ d.bound n (i + 1) := by
  rw [bound, bound, Nat.mul_succ]
  exact Nat.div_add_div_le_add_div

/-- A span ends at most an equal share of rows and one row more later than it begins. -/
theorem bound_succ_le {n : Nat} (h : 0 < n) (i : Nat) :
    d.bound n (i + 1) ≤ d.bound n i + d.size / n + 1 := by
  rw [bound, bound, Nat.mul_succ, Nat.add_div h]
  split <;> omega

/-! ### What is in a span -/

/-- A span goes from where it begins to where it ends. -/
theorem length_span {n i : Nat} (h : i < n) :
    (d.span n i).length = d.bound n (i + 1) - d.bound n i := by
  have within : d.bound n (i + 1) ≤ d.rows.length := d.bound_le_size h
  rw [span, List.length_take, List.length_drop]
  omega

/-- The rows of a span are those from where it begins on. -/
theorem getElem?_span {n i j : Nat} (h : d.bound n i + j < d.bound n (i + 1)) :
    (d.span n i)[j]? = d.rows[d.bound n i + j]? := by
  rw [span, List.getElem?_take_of_lt (by omega), List.getElem?_drop]

/-- The first spans are the first rows. -/
theorem flatMap_span (n k : Nat) :
    (List.range k).flatMap (d.span n) = d.rows.take (d.bound n k) := by
  induction k with
  | zero => simp [bound]
  | succ k ih =>
    have next : d.bound n (k + 1) = d.bound n k + (d.bound n (k + 1) - d.bound n k) :=
      (Nat.add_sub_cancel' (d.bound_mono (Nat.le_succ k))).symm
    rw [List.range_succ, List.flatMap_append, List.flatMap_singleton, ih, next, List.take_add]
    rfl

/-! ### Partitions -/

/-- **No row is lost or owned twice.** -/
theorem flatMap_split {n : Nat} (h : 0 < n) : (d.split n).flatMap (·.rows) = d.rows := by
  rw [split, List.flatMap_map]
  refine (d.flatMap_span n n).trans ?_
  rw [d.bound_self h]
  exact List.take_length

theorem of_mem_split {n : Nat} {p : Partition F} (h : p ∈ d.split n) :
    p.featureCount = d.featureCount ∧ ∀ row ∈ p.rows, row ∈ d.rows := by
  obtain ⟨i, -, rfl⟩ := List.mem_map.mp h
  exact ⟨rfl, fun row hr => List.mem_of_mem_drop (List.mem_of_mem_take hr)⟩

theorem getElem?_split {n i : Nat} (h : i < n) :
    (d.split n)[i]? = some (.ofRows d.featureCount (d.span n i)) := by
  rw [split, List.getElem?_map, List.getElem?_range h, Option.map_some]

/-- **Everybody owns an equal share of the rows**, or one row more. -/
theorem size_of_mem_split {n : Nat} {p : Partition F} (h : p ∈ d.split n) :
    d.size / n ≤ p.size ∧ p.size ≤ d.size / n + 1 := by
  obtain ⟨i, hi, rfl⟩ := List.mem_map.mp h
  have hi : i < n := List.mem_range.mp hi
  have least := d.le_bound_succ n i
  have most := d.bound_succ_le (Nat.zero_lt_of_lt hi) i
  change d.size / n ≤ (d.span n i).length ∧ (d.span n i).length ≤ d.size / n + 1
  rw [d.length_span hi]
  generalize d.size / n = share at least most ⊢
  omega

/-- Whoever shares the rows among no more peers than there are rows leaves nobody without one. -/
theorem rows_ne_nil_of_mem_split {n : Nat} (enough : n ≤ d.rows.length) {p : Partition F}
    (h : p ∈ d.split n) : p.rows ≠ [] := by
  obtain ⟨i, hi, -⟩ := List.mem_map.mp h
  have pos : 0 < d.size / n := Nat.div_pos enough (Nat.zero_lt_of_lt (List.mem_range.mp hi))
  exact List.ne_nil_of_length_pos (Nat.lt_of_lt_of_le pos (d.size_of_mem_split h).1)

end Dataset

end Superstep
