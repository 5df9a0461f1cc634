import Mathlib.Algebra.Order.Field.Rat
import Mathlib.Data.List.Perm.Basic
import Superstep.Proofs.Training.Sequential

/-!
# Training with exact numbers

The order of the names decides in which order costs and gradients are added up, and with floating
point numbers this may well be seen in the sums. With exact numbers it is not
(`Superstep.Scalar.Exact`): the total of some shares is that of all their rows
(`Superstep.Loop.total_ofShares`, `Superstep.Loop.gradient_ofShares`), whoever owns them and in
whatever order they come. So two ways to share the same rows out make one loop
(`Superstep.Loop.ofShares_eq_ofRows`, `Superstep.Loop.ofRows_perm`).

Rational numbers are exact. As the cost to start from they have the greatest finite floating point
number, and all of them are finite.
-/

namespace Superstep

variable {F : Type} [Scalar F]

/-! ### Exact numbers -/

/-- **Exact numbers**: the order of the terms of a sum does not matter, and zero adds nothing. -/
class Scalar.Exact (F : Type) [Scalar F] : Prop where
  add_comm : ∀ a b : F, a + b = b + a
  add_assoc : ∀ a b c : F, a + b + c = a + (b + c)
  add_zero : ∀ a : F, a + Scalar.zero = a

/-- Rational numbers. -/
instance : Scalar ℚ where
  zero := 0
  minusZero := 0
  ofNat n := n
  largest := (2 ^ 53 - 1) * 2 ^ 971
  isFinite _ := true
  less a b := decide (a < b)
  same a b := decide (a = b)

instance : Scalar.Exact ℚ where
  add_comm := Rat.add_comm
  add_assoc := Rat.add_assoc
  add_zero := Rat.add_zero

variable [Scalar.Exact F]

theorem Scalar.add_right_comm (a b c : F) : a + b + c = a + c + b := by
  rw [Exact.add_assoc, Exact.add_comm b c, ← Exact.add_assoc]

/-! ### Sums of costs -/

namespace PartialCost

theorem merge_add (total part : PartialCost F) (cost : F) :
    total.merge (part.add cost) = (total.merge part).add cost := by
  simp only [merge, add, Scalar.Exact.add_assoc, UInt64.add_assoc]

theorem merge_zero (total : PartialCost F) : total.merge .zero = total := by
  simp only [merge, zero, Scalar.Exact.add_zero, UInt64.add_zero]

theorem add_right_comm (total : PartialCost F) (cost cost' : F) :
    (total.add cost).add cost' = (total.add cost').add cost := by
  simp only [add, Scalar.add_right_comm total.sum cost cost']

end PartialCost

namespace TotalModel

variable (m : TotalModel F) (theta : List F)

/-- To add the sum of some costs is to add the costs. -/
theorem merge_score (total : PartialCost F) (rows : List (Sample F)) :
    total.merge (m.score theta rows) =
      rows.foldl (fun sum row => sum.add (m.cost row.features row.label theta)) total := by
  induction rows using List.reverseRecOn with
  | nil => exact total.merge_zero
  | append_singleton rows row ih =>
    rw [score_concat, PartialCost.merge_add, ih, List.foldl_concat]

/-- The order of the rows does not matter for the sum of their costs. -/
theorem score_perm {rows rows' : List (Sample F)} (h : rows.Perm rows') :
    m.score theta rows = m.score theta rows' :=
  h.foldl_eq' (fun _ _ _ _ sum => sum.add_right_comm _ _) _

end TotalModel

/-! ### Sums of gradients -/

namespace Totals

theorem addEntries_assoc (a b c : List F) :
    addEntries (addEntries a b) c = addEntries a (addEntries b c) := by
  induction a generalizing b c with
  | nil => simp [addEntries]
  | cons x a ih =>
    cases b with
    | nil => simp [addEntries]
    | cons y b =>
      cases c with
      | nil => simp [addEntries]
      | cons z c => exact congrArg₂ List.cons (Scalar.Exact.add_assoc x y z) (ih b c)

theorem addEntries_comm (a b : List F) : addEntries a b = addEntries b a :=
  List.zipWith_comm_of_comm Scalar.Exact.add_comm

theorem addEntries_right_comm (a b c : List F) :
    addEntries (addEntries a b) c = addEntries (addEntries a c) b := by
  rw [addEntries_assoc, addEntries_comm b c, ← addEntries_assoc]

/-- To add zeros changes nothing, if there are enough of them. -/
theorem addEntries_replicate {a : List F} {n : Nat} (h : a.length ≤ n) :
    addEntries a (List.replicate n Scalar.zero) = a := by
  refine List.ext_getElem ?_ fun i hi hi' => ?_
  · simpa [addEntries] using h
  · simp [addEntries, Scalar.Exact.add_zero]

omit [Scalar.Exact F] in
theorem length_addEntries_le (a b : List F) : (addEntries a b).length ≤ a.length := by
  rw [addEntries, List.length_zipWith]
  exact Nat.min_le_left ..

end Totals

namespace Pass

omit [Scalar.Exact F] in
/-- The gradient of a row is a list of numbers to be added. -/
theorem addGradient_eq (error : F) (features sum : List F) :
    addGradient error features sum = Totals.addEntries sum (features.map (error * ·)) := by
  rw [addGradient, Totals.addEntries, List.zipWith_map_right]

end Pass

namespace TotalModel

variable (m : TotalModel F) (theta : List F)

/-- To add the sum of some gradients is to add the gradients. -/
theorem addEntries_slope {total : List F} (h : total.length ≤ theta.length)
    (rows : List (Sample F)) : Totals.addEntries total (m.slope theta rows) =
      rows.foldl (fun sum row => Pass.addGradient (m.hypothesis theta row.features - row.label)
        row.features sum) total := by
  induction rows using List.reverseRecOn with
  | nil => exact Totals.addEntries_replicate h
  | append_singleton rows row ih =>
    rw [slope_concat, Pass.addGradient_eq, ← Totals.addEntries_assoc, ih, List.foldl_concat,
      Pass.addGradient_eq]

/-- The order of the rows does not matter for the sum of their gradients. -/
theorem slope_perm {rows rows' : List (Sample F)} (h : rows.Perm rows') :
    m.slope theta rows = m.slope theta rows' := by
  refine h.foldl_eq' (fun row _ row' _ sum => ?_) _
  simp only [Pass.addGradient_eq]
  exact Totals.addEntries_right_comm ..

end TotalModel

/-! ### Shares -/

namespace Loop

variable (config : Config F) (m : TotalModel F) (width : Nat)

/-- The shares in the order of the names have the same rows. -/
theorem perm_flatMap_byName {α : Type} (shares : List (PeerName × List α)) :
    ((byName (·.1) shares).flatMap (·.2)).Perm (shares.flatMap (·.2)) :=
  (byName_perm _ shares).flatMap_right _

/-- **The costs of some shares are those of all their rows.** -/
theorem total_ofShares (shares : List (PeerName × List (Sample F))) (theta : List F) :
    (ofShares config m width shares).total theta = m.score theta (shares.flatMap (·.2)) := by
  refine Eq.trans ?_ (m.score_perm theta (perm_flatMap_byName shares))
  rw [TotalModel.score, List.foldl_flatMap]
  simp only [ofShares, m.merge_score]

/-- **The gradients of some shares are those of all their rows.** -/
theorem gradient_ofShares (shares : List (PeerName × List (Sample F))) (theta : List F) :
    (ofShares config m width shares).gradient theta = m.slope theta (shares.flatMap (·.2)) := by
  -- the entries of the total must not outnumber the parameters, or adding would cut them off
  have fold : ∀ (list : List (PeerName × List (Sample F))) (total : List F),
      total.length ≤ theta.length →
      list.foldl (fun total share => Totals.addEntries total (m.slope theta share.2)) total =
        (list.flatMap (·.2)).foldl (fun sum row =>
          Pass.addGradient (m.hypothesis theta row.features - row.label) row.features sum)
          total := by
    intro list
    induction list with
    | nil => exact fun _ _ => rfl
    | cons share rest ih =>
      intro total h
      rw [List.foldl_cons, List.flatMap_cons, List.foldl_append, ← m.addEntries_slope theta h]
      exact ih _ (Nat.le_trans (Totals.length_addEntries_le ..) h)
  refine Eq.trans ?_ (m.slope_perm theta (perm_flatMap_byName shares))
  exact fold _ _ (Nat.le_of_eq List.length_replicate)

/-- Training on rows that nobody owns. -/
def ofRows (rows : List (Sample F)) : Loop F where
  config
  start := List.replicate width config.initialTheta
  total theta := m.score theta rows
  gradient theta := m.slope theta rows

/-- **Whoever owns the rows, the loop is the same.** -/
theorem ofShares_eq_ofRows (shares : List (PeerName × List (Sample F))) :
    ofShares config m width shares = ofRows config m width (shares.flatMap (·.2)) :=
  congrArg₂ (Loop.mk config (List.replicate width config.initialTheta))
    (funext fun theta => total_ofShares config m width shares theta)
    (funext fun theta => gradient_ofShares config m width shares theta)

/-- **In whatever order the rows come, the loop is the same.** -/
theorem ofRows_perm {rows rows' : List (Sample F)} (h : rows.Perm rows') :
    ofRows config m width rows = ofRows config m width rows' :=
  congrArg₂ (Loop.mk config (List.replicate width config.initialTheta))
    (funext fun theta => m.score_perm theta h) (funext fun theta => m.slope_perm theta h)

end Loop

end Superstep
