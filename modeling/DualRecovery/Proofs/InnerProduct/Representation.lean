import DualRecovery.Proofs.InnerProduct

/-! Vectors that represent functionals. In the space of a set every functional `x ↦ a · x` is the
product with exactly one vector, which is the one that is computed. Entries after a packed triangle
take no part in it, and of a list that is too short nothing is computed. -/

namespace DualRecovery

/-! ### Lists that are long enough -/

theorem exists_map_eq_ok {ε β γ : Type} {f : β → γ} {x : Except ε β} :
    (∃ c, f <$> x = .ok c) ↔ ∃ b, x = .ok b := by
  cases x <;> simp [Functor.map, Except.map]

/-- One entry more than a triangle is not a triangle. -/
theorem triangularNumber_ne_succ {j k : ℕ} (hk : 0 < k) :
    triangularNumber j ≠ triangularNumber k + 1 := by
  rcases Nat.lt_or_ge k j with h | h
  · have hmono := triangularNumber_mono (show k + 1 ≤ j from h)
    rw [triangularNumber_succ] at hmono
    omega
  · have hmono := triangularNumber_mono h
    omega

/-- Rows are halved just if they are all there, but for the last diagonal entry. -/
theorem exists_halveOffDiagonal_iff {α : Type} [Scalar α] (count i : ℕ) (xs : List α) :
    (∃ ys, halveOffDiagonal count i xs = .ok ys) ↔
      triangularNumber (i + count) ≤ triangularNumber i + xs.length + 1 := by
  induction count generalizing i xs with
  | zero => exact iff_of_true ⟨xs, rfl⟩ (by rw [Nat.add_zero]; omega)
  | succ count ih =>
    have hside : i + (count + 1) = i + 1 + count := by omega
    have hstep := triangularNumber_succ i
    have hmono := triangularNumber_mono (show i + 1 ≤ i + 1 + count by omega)
    rw [hside]
    rcases Nat.lt_trichotomy xs.length i with hshort | hrow | hlong
    · -- a row that ends too early
      have hfault : halveOffDiagonal (count + 1) i xs = .error (.outOfRange i xs.length) :=
        if_pos (by rw [List.length_take]; omega)
      rw [hfault]
      exact iff_of_false nofun (by omega)
    · -- a row without its diagonal entry, which must be the last
      have hnext : (∃ ys, halveOffDiagonal (count + 1) i xs = .ok ys) ↔
          ∃ ys, halveOffDiagonal count (i + 1) ([] : List α) = .ok ys := by
        rw [halveOffDiagonal, if_neg (by rw [List.length_take]; omega),
          List.drop_eq_nil_of_le (by omega)]
        exact exists_map_eq_ok
      have hne : triangularNumber (i + 1 + count) ≠ triangularNumber (i + 1) + 1 :=
        triangularNumber_ne_succ i.succ_pos
      rw [hnext, ih, List.length_nil]
      omega
    · obtain ⟨row, d, rest, rfl, rfl⟩ := exists_row hlong
      rw [halveOffDiagonal_append, exists_map_eq_ok, ih, List.length_append, List.length_cons]
      omega

/-! ### Representing vectors -/

namespace InnerProduct

/-- In the space of lists of length `n`, the product with `b` is the functional `x ↦ a · x`. -/
structure Represents (p : InnerProduct) (n : ℕ) (a b : List ℚ) : Prop where
  length : b.length = n
  dot : ∀ x : List ℚ, x.length = n →
    p.dot b x = .ok (∑ k ∈ Finset.range n, a.getD k 0 * x.getD k 0)

variable {p : InnerProduct} {n : ℕ} {a b c x : List ℚ}

theorem dot_div_weight (hp : p.Fits n) (ha : a.length = n) (hx : x.length = n) :
    p.dot (a.mapIdx fun k e => e / p.weight k) x =
      .ok (∑ k ∈ Finset.range n, a.getD k 0 * x.getD k 0) := by
  rw [dot_eq_ok hp (List.length_mapIdx.trans ha) hx]
  refine congrArg Except.ok (Finset.sum_congr rfl fun k hk => ?_)
  have hk : k < a.length := ha ▸ Finset.mem_range.mp hk
  have hentry : (a.mapIdx fun k e => e / p.weight k).getD k 0 = a.getD k 0 / p.weight k := by
    simp [List.getD_eq_getElem?_getD, hk]
  rw [hentry, ← mul_assoc, mul_div_cancel₀ _ (p.weight_ne_zero k)]

theorem dot_unitVector (hp : p.Fits n) (hb : b.length = n) {k : ℕ} (hk : k < n) :
    p.dot b (unitVector n k) = .ok (p.weight k * b.getD k 0) := by
  rw [dot_eq_ok hp hb (length_unitVector n k), p.sum_weight_unitVector b hk]

/-- The product is not degenerate: its values on the unit vectors determine a vector. -/
theorem eq_of_dot_eq (hp : p.Fits n) (hb : b.length = n) (hc : c.length = n)
    (h : ∀ x, x.length = n → p.dot b x = p.dot c x) : b = c := by
  refine List.ext_getElem (hb.trans hc.symm) fun k hkb hkc => ?_
  have hk : k < n := hb ▸ hkb
  have hunit := h (unitVector n k) (length_unitVector n k)
  rw [dot_unitVector hp hb hk, dot_unitVector hp hc hk, Except.ok.injEq] at hunit
  rw [← List.getD_eq_getElem b 0 hkb, ← List.getD_eq_getElem c 0 hkc]
  exact mul_left_cancel₀ (p.weight_ne_zero k) hunit

/-- The vector that is computed represents the functional, and no other does. -/
theorem exists_represents (hp : p.Fits n) (ha : a.length = n) :
    ∃ b, p.represent a = .ok b ∧ p.Represents n a b ∧ ∀ c, p.Represents n a c → c = b := by
  have hdot (x : List ℚ) (hx : x.length = n) := dot_div_weight hp ha hx
  have hlength : (a.mapIdx fun k e => e / p.weight k).length = n := List.length_mapIdx.trans ha
  refine ⟨_, represent_eq_ok hp ha, ⟨hlength, hdot⟩, fun c hc => ?_⟩
  exact eq_of_dot_eq hp hc.length hlength fun x hx => (hc.dot x hx).trans (hdot x hx).symm

theorem drop_div_weight {side offset : ℕ} (a : List ℚ) :
    (a.mapIdx fun k e => e / (triangle side offset).weight k).drop
        (offset + triangularNumber side) =
      a.drop (offset + triangularNumber side) := by
  refine List.ext_getElem (by simp) fun k _ _ => ?_
  rw [List.getElem_drop, List.getElem_drop, List.getElem_mapIdx, weight_surplus (by omega), div_one]

/-- A list is represented if at most the last diagonal entry is missing. -/
theorem exists_represent_triangle_iff {α : Type} [Scalar α] {side offset : ℕ} {a : List α} :
    (∃ b, (triangle side offset).represent a = .ok b) ↔
      offset ≤ a.length ∧ offset + triangularNumber side ≤ a.length + 1 := by
  by_cases hshort : a.length < offset
  · have hfault : (triangle side offset).represent a = .error (.outOfRange offset a.length) :=
      if_pos hshort
    rw [hfault]
    refine iff_of_false ?_ (by omega)
    rintro ⟨b, hb⟩
    cases hb
  · rw [represent, if_neg hshort, exists_map_eq_ok, exists_halveOffDiagonal_iff, Nat.zero_add,
      triangularNumber_zero, List.length_drop]
    omega

end InnerProduct

namespace ConstraintSet

/-- If the dimension of the set overflows, no list that fits in memory is represented. -/
theorem exists_fault_of_size {s : ConstraintSet ℚ} {cause : Fault} (h : s.size = .error cause)
    {a : List ℚ} (ha : a.length + 1 < UInt64.size / 2) :
    ∃ fault, s.innerProduct.represent a = .error fault := by
  obtain ⟨-, hlarge⟩ := of_size_eq_error h
  have hshort {side offset : ℕ} (hside : UInt64.size ≤ 2 * (offset + triangularNumber side)) :
      ∃ fault, (InnerProduct.triangle side offset).represent a = .error fault := by
    cases heq : (InnerProduct.triangle side offset).represent a with
    | error fault => exact ⟨fault, rfl⟩
    | ok b =>
      have hlong := InnerProduct.exists_represent_triangle_iff.mp ⟨b, heq⟩
      omega
  cases s with
  | psdTriangleCone side => exact hshort (by rw [Nat.zero_add]; exact hlarge)
  | rootDetTriangleCone side | logDetTriangleCone side => exact hshort hlarge
  | _ => cases h

/-- In the space of every set whose dimension is a word, the vector that is computed for `a`
represents `x ↦ a · x`, and no other vector does. No position in a triangle overflows if the number
of its entries does not. Where the dimension overflows, no list that fits in memory is represented.
For a triangle, entries after it are returned as they are. -/
theorem represent_unique :
    (∀ (s : ConstraintSet ℚ) (n : ℕ), s.size = .ok n → ∀ a : List ℚ, a.length = n →
      ∃ b, s.innerProduct.represent a = .ok b ∧ s.innerProduct.Represents n a b ∧
        ∀ c, s.innerProduct.Represents n a c → c = b) ∧
    (∀ side n : ℕ, Word.triangularNumber side = .ok n → ∀ i < side,
      Word.triangularNumber i = .ok (triangularNumber i) ∧
        Word.diagonalIndex i = .ok (diagonalIndex i)) ∧
    (∀ (s : ConstraintSet ℚ) (cause : Fault), s.size = .error cause →
      ∀ a : List ℚ, a.length + 1 < UInt64.size / 2 →
        ∃ fault, s.innerProduct.represent a = .error fault) ∧
    ∀ (side offset : ℕ) (a : List ℚ), offset + side * (side + 1) / 2 ≤ a.length →
      ∃ b, (InnerProduct.triangle side offset).represent a = .ok b ∧ b.length = a.length ∧
        b.drop (offset + side * (side + 1) / 2) = a.drop (offset + side * (side + 1) / 2) := by
  refine ⟨fun s n hn a ha => ?_, fun side n hn i hi => Word.rowBounds hn hi,
    fun s cause hs a ha => exists_fault_of_size hs ha, fun side offset a ha => ?_⟩
  · obtain rfl := eq_dimension_of_size hn
    exact InnerProduct.exists_represents s.fits_dimension ha
  · exact ⟨_, InnerProduct.represent_triangle_eq_ok ha, List.length_mapIdx,
      InnerProduct.drop_div_weight a⟩

/-- Two leading scalars and a matrix, a matrix too large for any memory, and a matrix that two more
entries follow. -/
theorem represent_unique_logDetTriangleCone :
    (logDetTriangleCone 2 : ConstraintSet ℚ).size = .ok 5 ∧
      (logDetTriangleCone 2 : ConstraintSet ℚ).innerProduct.represent ([1, 2, 3, 4, 5] : List ℚ) =
        .ok [1, 2, 3, 2, 5] ∧
      (logDetTriangleCone 2 : ConstraintSet ℚ).innerProduct.dot
        ([1, 2, 3, 2, 5] : List ℚ) [1, 1, 1, 1, 1] = .ok 15 ∧
      Word.diagonalIndex 1 = .ok 2 ∧
      (psdTriangleCone (UInt64.size - 1) : ConstraintSet ℚ).size = .error .overflow ∧
      (∃ fault, (psdTriangleCone (UInt64.size - 1) : ConstraintSet ℚ).innerProduct.represent
        ([] : List ℚ) = .error fault) ∧
      ∃ b : List ℚ, (InnerProduct.triangle 2 0).represent ([1, 2, 3, 4, 5] : List ℚ) = .ok b ∧
        b.drop 3 = [4, 5] := by
  obtain ⟨hspace, hpositions, hoverflow, hsurplus⟩ := represent_unique
  have hsize : (psdTriangleCone (UInt64.size - 1) : ConstraintSet ℚ).size = .error .overflow := by
    decide
  obtain ⟨b, hb, hrep, -⟩ := hspace (logDetTriangleCone 2) 5 (by decide) [1, 2, 3, 4, 5] rfl
  obtain ⟨-, hdiagonal⟩ := hpositions 2 3 (by decide) 1 (by decide)
  obtain ⟨c, hc, -, hdrop⟩ := hsurplus 2 0 [1, 2, 3, 4, 5] (by decide)
  have hentries : b = [1, 2, 3, 2, 5] := Except.ok.inj (hb.symm.trans (by decide +kernel))
  have hsum := hrep.dot [1, 1, 1, 1, 1] rfl
  rw [hentries] at hb hsum
  exact ⟨by decide, hb, hsum.trans (by decide +kernel), hdiagonal, hsize,
    hoverflow _ _ hsize [] (by decide), c, hc, hdrop⟩

end ConstraintSet

end DualRecovery
