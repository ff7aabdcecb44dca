import DualRecovery.Proofs.InnerProduct
import DualRecovery.Proofs.Recovery.DualTerm
import DualRecovery.Proofs.Recovery.Safety

/-! A dual that is no number makes what its constraint adds to the dual objective no number, and
with it the dual objective. An interval is the exception: such a dual has no sign, which tells the
active bound, and the interval adds nothing. -/

namespace DualRecovery

open Scalar Traced

variable {α : Type} [Scalar α] [AbsorbingScalar α]

/-! ### Inner products -/

theorem isNaN_dot_row {p q : TriangleRow α} (hlen : p.offDiagonal.length = q.offDiagonal.length)
    (h : (∃ y ∈ q.offDiagonal, isNaN y = true) ∨ isNaN q.diagonal = true) :
    isNaN (TriangleRow.dot p q) = true := by
  refine AbsorbingScalar.isNaN_add (h.imp (fun hoff => ?_) fun hdiagonal => ?_)
  · exact AbsorbingScalar.isNaN_mul (Or.inr (isNaN_dotEntries hlen hoff))
  · exact AbsorbingScalar.isNaN_mul (Or.inr hdiagonal)

/-- Every entry of a triangle is in one of its rows. -/
theorem exists_isNaN_dot_rows (count i : ℕ) (xs ys : List α) (hlen : xs.length = ys.length)
    (htriangle : triangularNumber i + ys.length = triangularNumber (i + count))
    (h : ∃ y ∈ ys, isNaN y = true) :
    ∃ t ∈ List.zipWith TriangleRow.dot (TriangleRow.take count i xs) (TriangleRow.take count i ys),
      isNaN t = true := by
  induction count generalizing i xs ys with
  | zero =>
    obtain rfl : ys = [] := List.length_eq_zero_iff.mp (by rw [Nat.add_zero] at htriangle; omega)
    simp at h
  | succ count ih =>
    have hi : i < ys.length := by
      have := triangularNumber_mono (show i + 1 ≤ i + (count + 1) by omega)
      rw [triangularNumber_succ] at this
      omega
    obtain ⟨row, d, rest, rfl, hrow⟩ := exists_row (hlen ▸ hi)
    obtain ⟨row', d', rest', rfl, rfl⟩ := exists_row hi
    simp only [List.length_append, List.length_cons] at hlen htriangle
    rw [← hrow, TriangleRow.take_append, hrow, TriangleRow.take_append, List.zipWith_cons_cons]
    obtain ⟨y, hy, hnan⟩ := h
    rw [List.mem_append, List.mem_cons] at hy
    rcases hy with hy | rfl | hy
    · exact ⟨_, List.mem_cons_self, isNaN_dot_row hrow (Or.inl ⟨y, hy, hnan⟩)⟩
    · exact ⟨_, List.mem_cons_self, isNaN_dot_row hrow (Or.inr hnan)⟩
    · have hside : row'.length + (count + 1) = row'.length + 1 + count := by omega
      obtain ⟨t, ht, hnan⟩ := ih (row'.length + 1) rest rest' (by omega)
        (by rw [← hside, ← htriangle, triangularNumber_succ]; omega) ⟨y, hy, hnan⟩
      exact ⟨t, List.mem_cons_of_mem _ ht, hnan⟩

theorem InnerProduct.isNaN_dot {p : InnerProduct} {x y : List α} {d : α} (h : p.dot x y = .ok d)
    (hy : ∃ yᵢ ∈ y, isNaN yᵢ = true) : isNaN d = true := by
  cases p with
  | euclidean =>
    rw [dot, DualRecovery.dot, ofSameLength] at h
    split at h
    · next hlen =>
      obtain rfl := Except.ok.inj h
      exact isNaN_dotEntries hlen hy
    · cases h
  | triangle side offset =>
    rw [dot] at h
    split_ifs at h with hlen htriangle
    obtain rfl := Except.ok.inj h
    obtain ⟨yᵢ, hy, hnan⟩ := hy
    rw [← List.take_append_drop offset y, List.mem_append] at hy
    refine isNaN_foldl_add (hy.imp (fun hlead => ?_) fun hrows => ?_)
    · exact isNaN_dotEntries (by simp only [List.length_take]; omega) ⟨yᵢ, hlead, hnan⟩
    · refine exists_isNaN_dot_rows side 0 _ _ ?_ ?_ ⟨yᵢ, hrows, hnan⟩
      · simp only [List.length_drop]
        omega
      · rw [List.length_drop, triangularNumber_zero, Nat.zero_add, Nat.zero_add]
        omega

/-! ### Terms -/

namespace Backend

variable {b : Backend α} {settings : Settings α} {r : ℕ} {ci : ConstraintIndex} {t : α}
  {set : ConstraintSet α}

theorem isNaN_of_returns_bound {constant bound y : α} (hbound : set.constant? = some bound)
    (hy : (b.scalarDualOrRecovered settings r ci).Returns y) (hnan : isNaN y = true)
    (ht : (b.dualTerm settings r ci set (.scalar constant)).Returns t) : isNaN t = true := by
  rw [returns_dualTerm_bound hy hbound] at ht
  exact ht ▸ AbsorbingScalar.isNaN_mul (Or.inr hnan)

theorem isNaN_of_returns_vector {constants ys : List α} (hys : b.dual ci r = .ok (.vector ys))
    (hnan : ∃ y ∈ ys, isNaN y = true)
    (ht : (b.dualTerm settings r ci set (.vector constants)).Returns t) : isNaN t = true := by
  obtain ⟨-, d, hd, rfl⟩ := (returns_dualTerm_vector hys).mp ht
  exact AbsorbingScalar.isNaN_neg (InnerProduct.isNaN_dot hd hnan)

/-! ### The sum -/

theorem isNaN_of_addFamilyDualObjective {family : Family} {value value' : α}
    (h : (b.addFamilyDualObjective settings r value family).Returns value')
    (hnan : isNaN value = true ∨ family.kind ≠ .vectorOfVariables ∧ ∃ ci ∈ b.indices family,
      ∀ t, (b.loggedDualTerm settings r ci).Returns t → isNaN t = true) :
    isNaN value' = true := by
  unfold addFamilyDualObjective at h
  split_ifs at h with hquadratic hvariables
  · exact (returns_fail.mp h).elim
  · rw [returns_pure] at h
    exact h ▸ hnan.resolve_right fun hterm => hterm.1 hvariables
  · refine Returns.foldlM_keeps (P := fun value => isNaN value = true) ?_ h (hnan.imp_right ?_)
    · intro ci _ value value' hstep hvalue
      obtain ⟨t, -, ht⟩ := returns_bind.mp hstep
      exact returns_pure.mp ht ▸ AbsorbingScalar.isNaN_add (Or.inl hvalue)
    · rintro ⟨-, ci, hci, hterm⟩
      refine ⟨ci, hci, fun value value' hstep => ?_⟩
      obtain ⟨t, hreturns, ht⟩ := returns_bind.mp hstep
      exact returns_pure.mp ht ▸ AbsorbingScalar.isNaN_add (Or.inr (hterm t hreturns))

/-- If what a constraint adds is no number, nor is the dual objective. -/
theorem isNaN_of_dualObjectiveValue {family : Family} (hfamily : family ∈ b.families)
    (hkind : family.kind ≠ .vectorOfVariables) (hci : ci ∈ b.indices family)
    (hterm : ∀ t, (b.loggedDualTerm settings r ci).Returns t → isNaN t = true) {value : α}
    (h : (b.dualObjectiveValue settings r).Returns value) : isNaN value = true := by
  rw [dualObjectiveValue, returns_concluded, dualObjective, returns_bind] at h
  obtain ⟨sum, hsum, h⟩ := h
  have hnan : isNaN sum = true := by
    refine Returns.foldlM_keeps (P := fun value => isNaN value = true) ?_ hsum
      (Or.inr ⟨family, hfamily, ?_⟩)
    · exact fun _ _ _ _ hstep hvalue => isNaN_of_addFamilyDualObjective hstep (Or.inl hvalue)
    · exact fun _ _ hstep => isNaN_of_addFamilyDualObjective hstep (Or.inr ⟨hkind, ci, hci, hterm⟩)
  have hsigned : isNaN (if b.sense = .maximize then -sum else sum) = true := by
    split
    · exact AbsorbingScalar.isNaN_neg hnan
    · exact hnan
  dsimp only at h
  generalize (if b.sense = .maximize then -sum else sum) = signed at h hsigned
  split at h
  · exact returns_pure.mp h ▸ hsigned
  · simp only [returns_bind, returns_pure] at h
    obtain ⟨objective, -, constant, -, rfl⟩ := h
    exact AbsorbingScalar.isNaN_add (Or.inl hsigned)

end Backend

/-! ### The constraints of a store -/

namespace Store

variable {m : Store α} {settings : Settings α} {r : ℕ} {p : ConstraintIndex × Constraint α}
  {value y : α} (hp : p ∈ m.numbered)

include hp

theorem isNaN_of_term (h : (m.backend.dualObjectiveValue settings r).Returns value)
    (hkind : p.2.function.kind ≠ .vectorOfVariables)
    (hterm : ∀ t, (m.backend.loggedDualTerm settings r p.1).Returns t → isNaN t = true) :
    isNaN value = true :=
  Backend.isNaN_of_dualObjectiveValue (mem_families_of_mem_numbered hp)
    (kind_of_mem_numbered hp ▸ hkind) (mem_indices_of_mem_numbered hp) hterm h

theorem isNaN_of_vectorDual (h : (m.backend.dualObjectiveValue settings r).Returns value)
    (hkind : p.2.function.kind = .vectorAffine) {ys : List α}
    (hys : m.dual p.1 r = .ok (.vector ys)) (hnan : ∃ y ∈ ys, isNaN y = true) :
    isNaN value = true := by
  refine isNaN_of_term hp h (by rw [hkind]; exact nofun) fun t ht => ?_
  rw [Backend.returns_loggedDualTerm (backend_function hp) (backend_set hp)] at ht
  obtain ⟨ci, f, set⟩ := p
  cases f with
  | vectorAffine f => exact Backend.isNaN_of_returns_vector hys hnan ht
  | _ => cases hkind

variable (hfits : p.2.Fits m.variableCount) (hscalar : p.2.set.isScalar = true)
  (hy : (m.backend.scalarDualOrRecovered settings r p.1).Returns y) (hnan : isNaN y = true)

include hfits hscalar hy hnan

theorem isNaN_of_scalarDual (h : (m.backend.dualObjectiveValue settings r).Returns value)
    (hset : p.2.set.tag ≠ .interval) : isNaN value = true := by
  have hkind : p.2.function.kind.isScalar = true := hfits.isScalar.trans hscalar
  obtain ⟨constant, hconstant⟩ := ModelFunction.exists_constant hkind
  refine isNaN_of_term hp h (FunctionKind.ne_vectorOfVariables hkind) fun t ht => ?_
  rw [Backend.returns_loggedDualTerm (backend_function hp) (backend_set hp), hconstant] at ht
  rcases ConstraintSet.bound_cases hscalar with ⟨-, bound, hbound⟩ | ⟨lower, upper, hinterval⟩
  · exact Backend.isNaN_of_returns_bound hbound hy hnan ht
  · rw [hinterval] at hset
    exact absurd rfl hset

omit [AbsorbingScalar α] in
theorem returns_zero_of_interval [OrderedScalar α] (hset : p.2.set.tag = .interval) :
    (m.backend.loggedDualTerm settings r p.1).Returns 0 := by
  obtain ⟨constant, hconstant⟩ := ModelFunction.exists_constant (hfits.isScalar.trans hscalar)
  rw [Backend.returns_loggedDualTerm (backend_function hp) (backend_set hp), hconstant]
  rcases ConstraintSet.bound_cases hscalar with ⟨hne, -⟩ | ⟨lower, upper, hinterval⟩
  · exact absurd hset hne
  · obtain ⟨hpos, hneg⟩ := not_lt_of_isNaN hnan 0
    rw [hinterval]
    exact (Backend.returns_dualTerm_interval hy hpos hneg).mpr rfl

end Store

end DualRecovery
