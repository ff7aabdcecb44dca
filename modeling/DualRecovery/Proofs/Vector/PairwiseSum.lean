import DualRecovery.Proofs.Rational

/-! The additions of a sum by halves, as an expression. It has every term once and in order, over
any arithmetic its value is the sum, and its depth grows with the logarithm of the number of terms.
The sum is also that of the recursion on ranges of positions, which ends for every range. -/

namespace DualRecovery

/-! ### Expressions -/

/-- An expression with zeros and terms for leaves. -/
inductive SumTree (κ : Type) where
  | zero
  | term (k : κ)
  | add (left right : SumTree κ)
  deriving DecidableEq, Repr

namespace SumTree

variable {κ α : Type}

instance : Zero (SumTree κ) := ⟨zero⟩

instance : Add (SumTree κ) := ⟨add⟩

/-- The leaves that are no zeros, from left to right. -/
def terms : SumTree κ → List κ
  | zero => []
  | term k => [k]
  | add left right => left.terms ++ right.terms

/-- The most additions that a leaf lies under. -/
def depth : SumTree κ → ℕ
  | zero | term _ => 0
  | add left right => max left.depth right.depth + 1

/-- The value of the expression where the terms have the values `value`. -/
def evaluate [Zero α] [Add α] (value : κ → α) : SumTree κ → α
  | zero => 0
  | term k => value k
  | add left right => left.evaluate value + right.evaluate value

@[simp] theorem terms_zero : (0 : SumTree κ).terms = [] := rfl

@[simp] theorem terms_add (s t : SumTree κ) : (s + t).terms = s.terms ++ t.terms := rfl

@[simp] theorem depth_zero : (0 : SumTree κ).depth = 0 := rfl

@[simp] theorem depth_add (s t : SumTree κ) : (s + t).depth = max s.depth t.depth + 1 := rfl

/-! ### Sums of expressions -/

theorem terms_foldl_add (t : SumTree κ) (ts : List (SumTree κ)) :
    (ts.foldl (· + ·) t).terms = t.terms ++ ts.flatMap terms := by
  induction ts generalizing t with
  | nil => simp
  | cons s ts ih => rw [List.foldl_cons, ih, terms_add, List.flatMap_cons, List.append_assoc]

theorem terms_pairwiseSum (ts : List (SumTree κ)) :
    (pairwiseSum ts).terms = ts.flatMap terms := by
  fun_induction pairwiseSum ts with
  | case1 ts h => rw [terms_foldl_add, terms_zero, List.nil_append]
  | case2 ts h ih1 ih2 =>
    rw [terms_add, ih1, ih2, ← List.flatMap_append, List.take_append_drop]

theorem depth_foldl_add_le {t : SumTree κ} {ts : List (SumTree κ)} {d : ℕ} (ht : t.depth ≤ d)
    (hts : ∀ s ∈ ts, s.depth ≤ d) : (ts.foldl (· + ·) t).depth ≤ d + ts.length := by
  induction ts generalizing t d with
  | nil => exact ht
  | cons s ts ih =>
    rw [List.forall_mem_cons] at hts
    have hadd : (t + s).depth ≤ d + 1 := by
      rw [depth_add]
      omega
    rw [List.foldl_cons, List.length_cons, ← Nat.add_assoc, Nat.add_right_comm]
    exact ih hadd fun s' hs' => (hts.2 s' hs').trans d.le_succ

/-- Each doubling of the number of terms costs one more addition. -/
theorem depth_pairwiseSum_le {ts : List (SumTree κ)} {d : ℕ} (hts : ∀ t ∈ ts, t.depth = 0)
    (hlength : ts.length ≤ sumBlock * 2 ^ d) : (pairwiseSum ts).depth ≤ sumBlock + d := by
  fun_induction pairwiseSum ts generalizing d with
  | case1 ts h =>
    have hfold : (ts.foldl (· + ·) 0).depth ≤ 0 + ts.length :=
      depth_foldl_add_le le_rfl fun t ht => (hts t ht).le
    omega
  | case2 ts h ih1 ih2 =>
    obtain ⟨d, rfl⟩ : ∃ d', d = d' + 1 := by
      refine Nat.exists_eq_succ_of_ne_zero fun hd => h ?_
      rwa [hd, pow_zero, mul_one] at hlength
    have hhalf : ts.length ≤ 2 * (sumBlock * 2 ^ d) := by
      rwa [pow_succ, ← mul_assoc, mul_comm] at hlength
    have hleft := ih1 (d := d) (fun t ht => hts t (List.mem_of_mem_take ht)) (by
      rw [List.length_take]
      omega)
    have hright := ih2 (d := d) (fun t ht => hts t (List.mem_of_mem_drop ht)) (by
      rw [List.length_drop]
      omega)
    rw [depth_add]
    omega

variable [Zero α] [Add α]

theorem evaluate_foldl_add (value : κ → α) (t : SumTree κ) (ts : List (SumTree κ)) :
    (ts.foldl (· + ·) t).evaluate value =
      (ts.map (evaluate value)).foldl (· + ·) (t.evaluate value) := by
  induction ts generalizing t with
  | nil => rfl
  | cons s ts ih => exact ih (t + s)

theorem evaluate_pairwiseSum (value : κ → α) (ts : List (SumTree κ)) :
    (pairwiseSum ts).evaluate value = pairwiseSum (ts.map (evaluate value)) := by
  fun_induction pairwiseSum ts with
  | case1 ts h =>
    rw [pairwiseSum_of_length_le (by rwa [List.length_map])]
    exact evaluate_foldl_add value 0 ts
  | case2 ts h ih1 ih2 =>
    have hlong : sumBlock < (ts.map (evaluate value)).length := by
      rw [List.length_map]
      exact Nat.not_le.mp h
    rw [pairwiseSum_of_lt_length hlong, List.length_map, ← List.map_take, ← List.map_drop, ← ih1,
      ← ih2]
    rfl

end SumTree

/-- The expression that the sum by halves of `n` terms is. -/
def sumTree (n : ℕ) : SumTree ℕ := pairwiseSum ((List.range n).map SumTree.term)

/-! ### Ranges -/

section

variable {α : Type} [Zero α] [Add α] (term : ℕ → α)

/-- The recursion on ranges sums the terms from position `lo` up to `hi` to the value: a short range
from the left, a longer one by its halves. -/
inductive SumsRange : ℕ → ℕ → α → Prop
  | block {lo hi : ℕ} (h : hi - lo ≤ sumBlock) :
    SumsRange lo hi (((List.range' lo (hi - lo)).map term).foldl (· + ·) 0)
  | halves {lo hi : ℕ} {a b : α} (h : sumBlock < hi - lo)
    (hleft : SumsRange lo (lo + (hi - lo) / 2) a) (hright : SumsRange (lo + (hi - lo) / 2) hi b) :
    SumsRange lo hi (a + b)

variable {term}

/-- The halves of a range are next to each other and make up the range. -/
theorem pairwiseSum_range' {lo hi : ℕ} (h : sumBlock < hi - lo) :
    pairwiseSum ((List.range' lo (hi - lo)).map term) =
      pairwiseSum ((List.range' lo (lo + (hi - lo) / 2 - lo)).map term) +
        pairwiseSum ((List.range' (lo + (hi - lo) / 2) (hi - (lo + (hi - lo) / 2))).map term) := by
  have hleft : lo + (hi - lo) / 2 - lo = (hi - lo) / 2 := by omega
  have hright : hi - (lo + (hi - lo) / 2) = hi - lo - (hi - lo) / 2 := by omega
  have hcut : List.range' lo (hi - lo) = List.range' lo ((hi - lo) / 2) ++
      List.range' (lo + (hi - lo) / 2) (hi - lo - (hi - lo) / 2) := by
    rw [List.range'_append_1, Nat.add_sub_cancel' (Nat.div_le_self _ _)]
  have hlength : ((List.range' lo ((hi - lo) / 2)).map term).length = (hi - lo) / 2 := by simp
  rw [pairwiseSum_of_lt_length (by simpa using h), List.length_map, List.length_range', hleft,
    hright, hcut, List.map_append, List.take_left' hlength, List.drop_left' hlength]

/-- The recursion ends for every range, with the sum by halves. -/
theorem sumsRange_iff {lo hi : ℕ} {s : α} :
    SumsRange term lo hi s ↔ s = pairwiseSum ((List.range' lo (hi - lo)).map term) := by
  constructor
  · intro h
    induction h with
    | block h => rw [pairwiseSum_of_length_le (by simpa using h)]
    | halves h _ _ ihleft ihright => rw [pairwiseSum_range' h, ← ihleft, ← ihright]
  · rintro rfl
    -- by the length of the range, of which each half is shorter
    induction hn : hi - lo using Nat.strong_induction_on generalizing lo hi with
    | _ n ih =>
      subst hn
      by_cases h : hi - lo ≤ sumBlock
      · rw [pairwiseSum_of_length_le (by simpa using h)]
        exact .block h
      · have hlong : sumBlock < hi - lo := Nat.not_le.mp h
        rw [pairwiseSum_range' hlong]
        have hpos : 0 < sumBlock := by decide
        exact .halves hlong (ih _ (by omega) rfl) (ih _ (by omega) rfl)

end

/-! ### All terms, in order and not deep -/

/-- The recursion on the positions of `n` terms ends, with the value of one expression, which is the
same over any arithmetic. The expression has each term once, in order, and no other leaves but
zeros; where addition is that of a monoid, its value is the sum from the left. No leaf lies under
more than `16 + d` additions, for the least `d` with `n ≤ 16 * 2 ^ d`. -/
theorem sumTree_terms_depth (n : ℕ) :
    (∀ {α : Type} [Zero α] [Add α] (term : ℕ → α) (s : α),
      SumsRange term 0 n s ↔ s = (sumTree n).evaluate term) ∧
    (∀ {α : Type} [Zero α] [Add α] (term : ℕ → α),
      pairwiseSum ((List.range n).map term) = (sumTree n).evaluate term) ∧
    (sumTree n).terms = List.range n ∧
    (∀ {M : Type} [AddMonoid M] (term : ℕ → M),
      (sumTree n).evaluate term = (List.range n).foldl (fun acc i => acc + term i) 0) ∧
    ∃ d, IsLeast {d | n ≤ 16 * 2 ^ d} d ∧ (sumTree n).depth ≤ 16 + d := by
  have hvalue {α : Type} [Zero α] [Add α] (term : ℕ → α) :
      (sumTree n).evaluate term = pairwiseSum ((List.range n).map term) := by
    rw [sumTree, SumTree.evaluate_pairwiseSum, List.map_map]
    rfl
  refine ⟨fun term s => ?_, fun term => (hvalue term).symm, ?_, fun term => ?_, ?_⟩
  · rw [sumsRange_iff, hvalue, Nat.sub_zero, List.range_eq_range']
  · rw [sumTree, SumTree.terms_pairwiseSum, List.flatMap_map]
    exact List.flatMap_singleton' _
  · rw [hvalue, pairwiseSum_eq_sum, ← zero_add (List.sum _), ← foldl_add_eq_add_sum,
      List.foldl_map]
  · have hbound : ∃ d, n ≤ 16 * 2 ^ d := ⟨n, by have := n.lt_two_pow_self; omega⟩
    refine ⟨Nat.find hbound, ⟨Nat.find_spec hbound, fun d hd => Nat.find_min' hbound hd⟩, ?_⟩
    refine SumTree.depth_pairwiseSum_le (fun t ht => ?_) ?_
    · obtain ⟨i, -, rfl⟩ := List.mem_map.mp ht
      rfl
    · rw [List.length_map, List.length_range]
      exact Nat.find_spec hbound

end DualRecovery
