import DualRecovery.Proofs.Recovery.DualObjective
import DualRecovery.Proofs.Store.Effect
import DualRecovery.Proofs.Trace.Agrees

/-! A vector affine constraint in a cone that constrains the entries of a vector one by one, and the
scalar affine constraints on its rows. A model with the one and a model with the others instead,
each with its entry of the dual, have the same reduced costs and the same dual objective. -/

namespace DualRecovery

open Traced

/-! ### Constraints on rows -/

/-- The cones that constrain the entries of a vector one by one. -/
inductive RowCone where
  | zero
  | nonnegative
  | nonpositive
  deriving DecidableEq, Repr

namespace RowCone

/-- The cone of vectors of dimension `d`. -/
def cone (d : ℕ) : RowCone → ConstraintSet ℚ
  | zero => .zeroCone d
  | nonnegative => .nonnegativeCone d
  | nonpositive => .nonpositiveCone d

/-- The set of the numbers that may be entries. -/
def entries : RowCone → ConstraintSet ℚ
  | zero => .equalTo 0
  | nonnegative => .greaterThan 0
  | nonpositive => .lessThan 0

theorem dimension_cone (cone : RowCone) (d : ℕ) : (cone.cone d).dimension = d := by
  cases cone <;> rfl

theorem pairing_cone (cone : RowCone) {d : ℕ} {x y : List ℚ} (hx : x.length = d)
    (hy : y.length = d) :
    (cone.cone d).pairing x y = ∑ k ∈ Finset.range d, x.getD k 0 * y.getD k 0 := by
  have hdimension := cone.dimension_cone d
  have hproduct : (cone.cone d).innerProduct = .euclidean := by cases cone <;> rfl
  rw [ConstraintSet.pairing_eq_sum (hx.trans hdimension.symm) (hy.trans hdimension.symm),
    hdimension, hproduct]
  simp only [InnerProduct.weight_euclidean, one_mul]

theorem boundAt_entries (cone : RowCone) (y : ℚ) : cone.entries.boundAt y = 0 := by
  cases cone <;> rfl

end RowCone

/-- A vector affine constraint with its dual, and what becomes of the indices of constraints where
constraints on the rows stand for it. -/
structure Split where
  index : ConstraintIndex
  function : VectorAffine ℚ
  cone : RowCone
  dual : List ℚ
  /-- The new index of another constraint. -/
  kept : ConstraintIndex → ConstraintIndex
  /-- The index of the constraint on a row. -/
  row : ℕ → ConstraintIndex

namespace Split

variable (s : Split)

/-- The number of rows. -/
def dimension : ℕ := s.function.constants.length

/-- The constraint that is split. -/
def vector : ConstraintIndex × Constraint ℚ :=
  (s.index, ⟨.vectorAffine s.function, s.cone.cone s.dimension⟩)

/-- The constraint on row `k`. -/
def scalar (k : ℕ) : ConstraintIndex × Constraint ℚ :=
  (s.row k, ⟨.scalarAffine (s.function.row k), s.cone.entries⟩)

/-- Another constraint under its new index. -/
def keep (p : ConstraintIndex × Constraint ℚ) : ConstraintIndex × Constraint ℚ :=
  (s.kept p.1, p.2)

/-- The constraints `cs'` are the constraints `cs` but for the one that is split, for which those on
its rows stand, and `b'` answers as `b` does. Duals are kept, and rows have the entries of the dual
that is split. -/
structure Relates (r : ℕ) (b : Backend ℚ) (cs : List (ConstraintIndex × Constraint ℚ))
    (b' : Backend ℚ) (cs' : List (ConstraintIndex × Constraint ℚ)) : Prop where
  objective : b'.objective = b.objective
  sense : b'.sense = b.sense
  primal : ∀ v, b'.primal v r = b.primal v r
  primalStatus : b'.primalStatus r = b.primalStatus r
  dualStatus : b'.dualStatus r = b.dualStatus r
  mem : s.vector ∈ cs
  constraints : cs'.Perm
    ((cs.filter (·.1 ≠ s.index)).map s.keep ++ (List.range s.dimension).map s.scalar)
  dual : b.dual s.index r = .ok (.vector s.dual)
  keptDual : ∀ p ∈ cs, p.1 ≠ s.index → ∀ y, b'.dual (s.kept p.1) r = .ok y ↔ b.dual p.1 r = .ok y
  rowDual : ∀ k < s.dimension, b'.dual (s.row k) r = .ok (.scalar (s.dual.getD k 0))

theorem length_dual {m : Store ℚ} (hm : m.Valid) (h : s.vector ∈ m.numbered) {r : ℕ}
    (hdual : m.dual s.index r = .ok (.vector s.dual)) : s.dual.length = s.dimension := by
  obtain ⟨ys, heq, hlength⟩ := (Constraint.admits_iff_vector rfl).mp (hm.admits_of_dual h hdual)
  obtain rfl := Value.vector.inj heq
  exact hlength.trans (s.cone.dimension_cone _)

end Split

/-! ### Related stores -/

namespace Split.Relates

variable {s : Split} {m m' : Store ℚ} {r : ℕ} {settings : Settings ℚ}
  {p q : ConstraintIndex × Constraint ℚ} {v : VariableIndex}
  (h : s.Relates r m.backend m.numbered m'.backend m'.numbered)

include h

theorem mem_keep (hp : p ∈ m.numbered) (hne : p.1 ≠ s.index) : s.keep p ∈ m'.numbered := by
  refine h.constraints.mem_iff.mpr (List.mem_append_left _ (List.mem_map_of_mem ?_))
  exact List.mem_filter.mpr ⟨hp, decide_eq_true hne⟩

theorem mem_scalar {k : ℕ} (hk : k < s.dimension) : s.scalar k ∈ m'.numbered :=
  h.constraints.mem_iff.mpr
    (List.mem_append_right _ (List.mem_map_of_mem (List.mem_range.mpr hk)))

theorem eq_vector (hp : p ∈ m.numbered) (heq : p.1 = s.index) : p = s.vector :=
  Store.eq_of_mem_numbered hp h.mem heq

/-- Other constraints have other indices. -/
theorem kept_inj (hp : p ∈ m.numbered) (hpne : p.1 ≠ s.index) (hq : q ∈ m.numbered)
    (hqne : q.1 ≠ s.index) : s.kept p.1 = s.kept q.1 ↔ p.1 = q.1 := by
  refine ⟨fun heq => ?_, congrArg s.kept⟩
  have hkeep : s.keep p = s.keep q :=
    Store.eq_of_mem_numbered (h.mem_keep hp hpne) (h.mem_keep hq hqne) heq
  have hnodup : ((m.numbered.filter (·.1 ≠ s.index)).map s.keep).Nodup :=
    (h.constraints.nodup_iff.mp m'.nodup_numbered).of_append_left
  have hmem {p : ConstraintIndex × Constraint ℚ} (hp : p ∈ m.numbered) (hne : p.1 ≠ s.index) :
      p ∈ m.numbered.filter (·.1 ≠ s.index) := List.mem_filter.mpr ⟨hp, decide_eq_true hne⟩
  exact congrArg Prod.fst (List.inj_on_of_nodup_map hnodup (hmem hp hpne) (hmem hq hqne) hkeep)

/-- What holds of all constraints holds of all that stand for them. -/
theorem forall_iff {P P' : ConstraintIndex × Constraint ℚ → Prop}
    (hkeep : ∀ p ∈ m.numbered, p.1 ≠ s.index → (P' (s.keep p) ↔ P p)) (hvector : P s.vector)
    (hscalar : ∀ k < s.dimension, P' (s.scalar k)) :
    (∀ q ∈ m'.numbered, P' q) ↔ ∀ p ∈ m.numbered, P p := by
  constructor
  · intro hall p hp
    by_cases hne : p.1 = s.index
    · rw [h.eq_vector hp hne]
      exact hvector
    · exact (hkeep p hp hne).mp (hall _ (h.mem_keep hp hne))
  · intro hall q hq
    rcases List.mem_append.mp (h.constraints.mem_iff.mp hq) with hq | hq
    · obtain ⟨p, hp, rfl⟩ := List.mem_map.mp hq
      obtain ⟨hp, hne⟩ := List.mem_filter.mp hp
      exact (hkeep p hp (of_decide_eq_true hne)).mpr (hall p hp)
    · obtain ⟨k, hk, rfl⟩ := List.mem_map.mp hq
      exact hscalar k (List.mem_range.mp hk)

/-- A sum over all constraints is the sum over all that stand for them. -/
theorem sum_eq {f f' : ConstraintIndex × Constraint ℚ → ℚ}
    (hkeep : ∀ p ∈ m.numbered, p.1 ≠ s.index → f' (s.keep p) = f p)
    (hscalar : ∑ k ∈ Finset.range s.dimension, f' (s.scalar k) = f s.vector) :
    (m'.numbered.map f').sum = (m.numbered.map f).sum := by
  have hothers : m.numbered.erase s.vector = m.numbered.filter (·.1 ≠ s.index) := by
    rw [m.nodup_numbered.erase_eq_filter]
    refine List.filter_congr fun p hp => ?_
    have hiff : p = s.vector ↔ p.1 = s.index := ⟨congrArg Prod.fst, h.eq_vector hp⟩
    rw [Bool.eq_iff_iff, bne_iff_ne, decide_eq_true_iff]
    exact not_congr hiff
  have hperm := List.perm_cons_erase h.mem
  rw [hothers] at hperm
  have hrest : ((m.numbered.filter (·.1 ≠ s.index)).map fun p => f' (s.keep p)) =
      (m.numbered.filter (·.1 ≠ s.index)).map f := by
    refine List.map_congr_left fun p hp => ?_
    obtain ⟨hp, hne⟩ := List.mem_filter.mp hp
    exact hkeep p hp (of_decide_eq_true hne)
  rw [(h.constraints.map f').sum_eq, (hperm.map f).sum_eq, List.map_append, List.sum_append,
    List.map_map, List.map_map, List.map_cons, List.sum_cons, ← hscalar, add_comm]
  exact congrArg₂ (· + ·) rfl (congrArg List.sum hrest)

/-! ### Duals -/

theorem dual_vector : m.dual s.vector.1 r = .ok (.vector s.dual) := h.dual

theorem dual_scalar {k : ℕ} (hk : k < s.dimension) :
    m'.dual (s.scalar k).1 r = .ok (.scalar (s.dual.getD k 0)) :=
  h.rowDual k hk

theorem dual_cases (hp : p ∈ m.numbered) (hne : p.1 ≠ s.index) :
    (∃ y, m.dual p.1 r = .ok y ∧ m'.dual (s.kept p.1) r = .ok y) ∨
      ¬m.HasDual r p.1 ∧ ¬m'.HasDual r (s.kept p.1) := by
  by_cases hdual : m.HasDual r p.1
  · obtain ⟨y, hy⟩ := hdual
    exact .inl ⟨y, hy, (h.keptDual p hp hne y).mpr hy⟩
  · refine .inr ⟨hdual, fun ⟨y, hy⟩ => hdual ⟨y, (h.keptDual p hp hne y).mp hy⟩⟩

theorem hasDual_iff (hp : p ∈ m.numbered) (hne : p.1 ≠ s.index) :
    m'.HasDual r (s.kept p.1) ↔ m.HasDual r p.1 :=
  exists_congr (h.keptDual p hp hne)

theorem reportedAdjoint_keep (hp : p ∈ m.numbered) (hne : p.1 ≠ s.index) :
    m'.reportedAdjoint r v (s.keep p) = m.reportedAdjoint r v p := by
  obtain ⟨y, hy, hy'⟩ | ⟨hdual, hdual'⟩ := h.dual_cases hp hne
  · rw [Store.reportedAdjoint_of_dual hy]
    exact Store.reportedAdjoint_of_dual hy'
  · rw [Store.reportedAdjoint_of_not_hasDual hdual]
    exact Store.reportedAdjoint_of_not_hasDual hdual'

theorem reportedAdjoint_scalar {k : ℕ} (hk : k < s.dimension) :
    m'.reportedAdjoint r v (s.scalar k) = (s.function.row k).slope v * s.dual.getD k 0 :=
  Store.reportedAdjoint_of_dual (h.dual_scalar hk)

/-- The adjoint of the constraint is the sum of the adjoints of those on its rows. -/
theorem reportedAdjoint_vector (hm : m.Valid) :
    m.reportedAdjoint r v s.vector =
      ∑ k ∈ Finset.range s.dimension, (s.function.row k).slope v * s.dual.getD k 0 := by
  have hcolumn : (s.function.column v).length = s.dimension := s.function.length_column v
  rw [Store.reportedAdjoint_of_dual h.dual_vector]
  show (s.cone.cone s.dimension).pairing (s.function.column v) s.dual = _
  rw [s.cone.pairing_cone hcolumn (s.length_dual hm h.mem h.dual)]
  refine Finset.sum_congr rfl fun k hk => ?_
  rw [s.function.getD_column (Finset.mem_range.mp hk)]

/-! ### Reduced costs -/

theorem objective_eq : m'.objective = m.objective := Except.ok.inj h.objective

theorem sense_eq : m'.sense = m.sense := h.sense

theorem dualStatus_eq : m'.dualStatus r = m.dualStatus r := h.dualStatus

theorem hasGradient_iff : m'.HasGradient r ↔ m.HasGradient r := by
  rw [Store.HasGradient, Store.HasGradient, h.objective_eq, h.sense_eq, h.dualStatus_eq]

theorem gradient_eq : m'.gradient r v = m.gradient r v := by
  rw [Store.gradient, Store.gradient, h.objective_eq, h.sense_eq, h.dualStatus_eq]

theorem cost_eq (hzero : settings.zeroTolerance = 0) (hm : m.Valid) (hm' : m'.Valid) :
    m'.cost settings r v = m.cost settings r v := by
  rw [Store.cost, Store.cost, h.gradient_eq]
  refine congrArg (m.gradient r v - ·) (h.sum_eq (fun p hp hne => ?_) ?_)
  · rw [Store.contribution_of_zeroTolerance hzero hm hp,
      Store.contribution_of_zeroTolerance hzero hm' (h.mem_keep hp hne),
      h.reportedAdjoint_keep hp hne]
    rfl
  · rw [Store.contribution_of_zeroTolerance hzero hm h.mem, if_pos (by rfl),
      h.reportedAdjoint_vector hm]
    refine Finset.sum_congr rfl fun k hk => ?_
    have hk := Finset.mem_range.mp hk
    rw [Store.contribution_of_zeroTolerance hzero hm' (h.mem_scalar hk), if_pos (by rfl),
      h.reportedAdjoint_scalar hk]

theorem hasCost_iff (hq : q ∈ m.numbered) (hqne : q.1 ≠ s.index) :
    m'.HasCost settings r v (s.kept q.1) ↔ m.HasCost settings r v q.1 := by
  refine and_congr h.hasGradient_iff (h.forall_iff (fun p hp hne => ?_) ?_ fun k hk => ?_)
  · have hinj : s.kept p.1 = s.kept q.1 ↔ p.1 = q.1 := h.kept_inj hp hne hq hqne
    have hdual := h.hasDual_iff hp hne
    constructor
    · intro ha
      exact ⟨ha.linear, fun hwise hother => ha.unrelated hwise (mt hinj.mp hother),
        fun he => hdual.mp (ha.reported he)⟩
    · intro ha
      exact ⟨ha.linear, fun hwise hother => ha.unrelated hwise (mt hinj.mpr hother),
        fun he => hdual.mpr (ha.reported he)⟩
  · exact (Store.allows_iff_of_isAffine rfl).mpr fun _ => ⟨_, h.dual⟩
  · exact (Store.allows_iff_of_isAffine rfl).mpr fun _ => ⟨_, h.rowDual k hk⟩

theorem ne_index_of_isVariableWise (hp : p ∈ m.numbered)
    (hwise : p.2.function.kind.isVariableWise = true) : p.1 ≠ s.index := by
  intro heq
  rw [h.eq_vector hp heq] at hwise
  cases hwise

theorem returns_reducedCost (hzero : settings.zeroTolerance = 0) (hm : m.Valid) (hm' : m'.Valid)
    (hp : p ∈ m.numbered) (hwise : p.2.function.kind.isVariableWise = true) (v : VariableIndex) :
    (m'.backend.reducedCost settings r (s.kept p.1) v).Agrees
      (m.backend.reducedCost settings r p.1 v) := by
  have ht : 0 ≤ settings.zeroTolerance := hzero.ge
  have hne := h.ne_index_of_isVariableWise hp hwise
  intro x
  rw [Store.reducedCost_computes hm' ht (s.kept p.1) x, Store.reducedCost_computes hm ht p.1 x,
    h.hasCost_iff hp hne, h.cost_eq hzero hm hm']

/-! ### The dual objective -/

theorem dualOrRecovered_keep (hzero : settings.zeroTolerance = 0) (hm : m.Valid) (hm' : m'.Valid)
    (hp : p ∈ m.numbered) (hne : p.1 ≠ s.index) :
    m'.dualOrRecovered settings r (s.keep p) = m.dualOrRecovered settings r p := by
  obtain ⟨y, hy, hy'⟩ | ⟨hdual, hdual'⟩ := h.dual_cases hp hne
  · rw [Store.dualOrRecovered_of_dual hy]
    exact Store.dualOrRecovered_of_dual hy'
  · have hcost : m'.cost settings r = m.cost settings r :=
      funext fun v => h.cost_eq hzero hm hm'
    rw [Store.dualOrRecovered_of_not_hasDual hdual, ← hcost]
    exact Store.dualOrRecovered_of_not_hasDual hdual'

theorem dualTerm_keep (hzero : settings.zeroTolerance = 0) (hm : m.Valid) (hm' : m'.Valid)
    (hp : p ∈ m.numbered) (hne : p.1 ≠ s.index) :
    m'.dualTerm settings r (s.keep p) = m.dualTerm settings r p := by
  rw [Store.dualTerm, Store.dualTerm, h.dualOrRecovered_keep hzero hm hm' hp hne]
  rfl

theorem dualTerm_scalar {k : ℕ} (hk : k < s.dimension) :
    m'.dualTerm settings r (s.scalar k) =
      -(s.function.constants.getD k 0 * s.dual.getD k 0) := by
  rw [Store.dualTerm, Store.dualOrRecovered_of_dual (h.dual_scalar hk)]
  show s.cone.entries.boundAt _ * _ - s.function.constants.getD k 0 * s.dual.getD k 0 = _
  rw [s.cone.boundAt_entries, zero_mul, zero_sub]

/-- The constraint adds to the dual objective what those on its rows add. -/
theorem dualTerm_vector (hm : m.Valid) :
    m.dualTerm settings r s.vector =
      ∑ k ∈ Finset.range s.dimension, -(s.function.constants.getD k 0 * s.dual.getD k 0) := by
  have hconstants : s.function.constants.length = s.dimension := rfl
  rw [Store.dualTerm, Store.dualOrRecovered_of_dual h.dual_vector, Finset.sum_neg_distrib,
    ← s.cone.pairing_cone hconstants (s.length_dual hm h.mem h.dual)]
  exact zero_sub _

theorem contributes_keep (hr' : r < m'.results.length) (hp : p ∈ m.numbered)
    (hne : p.1 ≠ s.index) : m'.Contributes settings r (s.keep p) ↔ m.Contributes settings r p := by
  have hr := Store.lt_length_of_dual h.dual
  have hdual := h.hasDual_iff hp hne
  have hcost (v) : m'.HasCost settings r v (s.kept p.1) ↔ m.HasCost settings r v p.1 :=
    h.hasCost_iff hp hne
  constructor
  · intro hc
    refine ⟨hc.linear, fun haffine => hdual.mp (hc.reported haffine), fun hkind => ?_⟩
    exact (hc.recovered hkind).imp hdual.mp fun hrest =>
      ⟨hr, fun v hv => (hcost v).mp (hrest.2 v hv)⟩
  · intro hc
    refine ⟨hc.linear, fun haffine => hdual.mpr (hc.reported haffine), fun hkind => ?_⟩
    exact (hc.recovered hkind).imp hdual.mpr fun hrest =>
      ⟨hr', fun v hv => (hcost v).mpr (hrest.2 v hv)⟩

theorem objectiveShift_eq : m'.objectiveShift r = m.objectiveShift r := by
  rw [Store.objectiveShift, Store.objectiveShift, h.objective_eq, h.sense_eq, h.dualStatus_eq]

theorem returns_dualObjectiveValue (hzero : settings.zeroTolerance = 0) (hm : m.Valid)
    (hm' : m'.Valid) (hr' : r < m'.results.length) :
    (m'.backend.dualObjectiveValue settings r).Agrees
      (m.backend.dualObjectiveValue settings r) := by
  have ht : 0 ≤ settings.zeroTolerance := hzero.ge
  have hcontributes : (∀ q ∈ m'.numbered, m'.Contributes settings r q) ↔
      ∀ p ∈ m.numbered, m.Contributes settings r p :=
    h.forall_iff (fun p hp hne => h.contributes_keep hr' hp hne)
      ((Store.contributes_iff_of_isAffine rfl).mpr ⟨_, h.dual⟩)
      fun k hk => (Store.contributes_iff_of_isAffine rfl).mpr ⟨_, h.rowDual k hk⟩
  have hsum : (m'.numbered.map (m'.dualTerm settings r)).sum =
      (m.numbered.map (m.dualTerm settings r)).sum := by
    refine h.sum_eq (fun p hp hne => h.dualTerm_keep hzero hm hm' hp hne) ?_
    rw [h.dualTerm_vector hm]
    exact Finset.sum_congr rfl fun k hk => h.dualTerm_scalar (Finset.mem_range.mp hk)
  intro x
  rw [Store.dualObjective_computes hm' ht x, Store.dualObjective_computes hm ht x, hcontributes,
    hsum, h.sense_eq, h.hasGradient_iff, h.objectiveShift_eq]

end Split.Relates

end DualRecovery
