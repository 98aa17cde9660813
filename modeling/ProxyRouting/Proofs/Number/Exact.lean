import ProxyRouting.Number.Binary64

/-!
Doubles that are integers. An integer of at most 53 bits is its own nearest double, doubles compare like
the integers they are, and the difference of two integers is exact as long as it is small; a greater one
stays too great to be an index (`truncate?_sub`).
-/
namespace ProxyRouting.Binary64

/-- The greatest of the integers below which every one is a double. -/
def exactBound : Nat := 2 ^ 53

/-- The double is a given integer; zero has two. -/
def Stands (x : Binary64) (n : Int) : Prop := ∃ s q, x = .finite s q ∧ signed s q = n * one

/-- How many quanta make one is some power of two, and no more of it is needed. -/
theorem one_eq_pow : ∃ bits, one = 2 ^ bits := by
  unfold one
  exact ⟨_, Eq.refl _⟩

theorem one_pos : 0 < one := by
  obtain ⟨bits, power⟩ := one_eq_pow
  rw [power]
  exact Nat.two_pow_pos bits

theorem exactBound_lt_limit : exactBound * one < limit := by decide +kernel

theorem signed_natAbs (n : Int) : signed (n < 0) (n.natAbs * one) = n * one := by
  unfold signed
  by_cases negative : n < 0
  · simp only [negative, decide_true, ↓reduceIte, Int.natCast_mul]
    rw [Int.ofNat_natAbs_of_nonpos (Int.le_of_lt negative), Int.neg_mul, Int.neg_neg]
  · simp only [negative, decide_false, Bool.false_eq_true, ↓reduceIte, Int.natCast_mul]
    rw [Int.natAbs_of_nonneg (by omega)]

theorem nearest_exact {num den : Nat} (positive : 0 < den) (whole : den ∣ num) : nearest num den = num / den := by
  simp [nearest, Nat.mod_eq_zero_of_dvd whole, positive]

theorem le_nearest (num den : Nat) : num / den ≤ nearest num den := by
  unfold nearest
  simp only
  split
  · exact Nat.le_refl _
  · split <;> omega

theorem roundRatio_exact {q : Nat} (whole : 2 ^ (q.log2 - 52) ∣ q) : roundRatio q 1 = q := by
  simp only [roundRatio, Nat.div_one, Nat.one_mul]
  rw [nearest_exact (Nat.two_pow_pos _) whole, Nat.div_mul_cancel whole]

theorem roundRatio_integer {k : Nat} (small : k ≤ exactBound) : roundRatio (k * one) 1 = k * one := by
  obtain ⟨bits, power⟩ := one_eq_pow
  refine roundRatio_exact ?_
  by_cases zero : k = 0
  · simp [zero]
  · by_cases top : k = exactBound
    · rw [top, power, exactBound, ← Nat.pow_add, Nat.log2_two_pow]
      exact Nat.pow_dvd_pow 2 (by omega)
    · have positive : k * one ≠ 0 := Nat.mul_ne_zero zero (Nat.ne_of_gt one_pos)
      have size : (k * one).log2 < 53 + bits := by
        rw [Nat.log2_lt positive, Nat.pow_add, ← power]
        exact Nat.mul_lt_mul_of_pos_right (Nat.lt_of_le_of_ne small top) one_pos
      have divides : 2 ^ ((k * one).log2 - 52) ∣ 2 ^ bits := Nat.pow_dvd_pow 2 (by omega)
      rw [← power] at divides
      exact Nat.dvd_trans divides (Nat.dvd_mul_left one k)

/-- Rounding never leaves the binade. -/
theorem pow_log2_le_roundRatio {q : Nat} (positive : q ≠ 0) : 2 ^ q.log2 ≤ roundRatio q 1 := by
  simp only [roundRatio, Nat.div_one, Nat.one_mul]
  have split : 2 ^ q.log2 = 2 ^ (q.log2 - (q.log2 - 52)) * 2 ^ (q.log2 - 52) := by
    rw [← Nat.pow_add]
    congr 1
    omega
  rw [split]
  refine Nat.mul_le_mul_right _ (Nat.le_trans ?_ (le_nearest _ _))
  rw [Nat.le_div_iff_mul_le (Nat.two_pow_pos _), ← split]
  exact Nat.log2_self_le positive

theorem ofRatio_integer (negative : Bool) {k : Nat} (small : k ≤ exactBound) :
    ofRatio negative (k * one) 1 = .finite negative (k * one) := by
  have inside : k * one < limit := Nat.lt_of_le_of_lt (Nat.mul_le_mul_right one small) exactBound_lt_limit
  simp only [ofRatio, roundRatio_integer small, inside, ↓reduceIte]

theorem stands_ofInt {n : Int} (small : n.natAbs ≤ exactBound) : (ofInt n).Stands n :=
  ⟨n < 0, n.natAbs * one, ofRatio_integer _ small, signed_natAbs n⟩

theorem ofNat_eq (n : Nat) : ofNat n = ofInt n := by
  have positive : ¬ (n : Int) < 0 := by omega
  simp [ofNat, ofInt, positive]

theorem stands_ofNat {n : Nat} (small : n ≤ exactBound) : (ofNat n).Stands n := by
  rw [ofNat_eq]
  exact stands_ofInt (by simpa using small)

theorem compare_mul_one (m n : Int) : compare (m * one) (n * one) = compare m n := by
  have positive : (0 : Int) < one := Int.natCast_pos.2 one_pos
  simp only [Int.compare_eq_ite_le, Int.mul_le_mul_right positive]

/-- Doubles compare like the integers they are. -/
theorem compare?_stands {x y : Binary64} {m n : Int} (first : x.Stands m) (second : y.Stands n) :
    compare? x y = some (compare m n) := by
  obtain ⟨s, p, rfl, left⟩ := first
  obtain ⟨t, q, rfl, right⟩ := second
  simp only [compare?, left, right, compare_mul_one]

theorem quanta_of_natCast {s : Bool} {q k : Nat} (same : signed s q = (k : Int) * one) :
    q = k * one ∧ ¬ (s = true ∧ one ≤ q) := by
  have positive := one_pos
  unfold signed at same
  generalize one = unit at *
  constructor <;> grind

theorem quanta_of_negative {s : Bool} {q k : Nat} (same : signed s q = -(k : Int) * one) (negative : k ≠ 0) :
    s = true ∧ one ≤ q := by
  have positive := one_pos
  have least := Nat.mul_le_mul_right one (Nat.one_le_iff_ne_zero.2 negative)
  unfold signed at same
  generalize one = unit at *
  constructor <;> grind

/-- A double that is an integer is that index, unless it is negative. -/
theorem truncate?_stands {x : Binary64} {n : Int} (stands : x.Stands n) (i : Nat) :
    x.truncate? = some i ↔ n = i := by
  obtain ⟨s, q, rfl, same⟩ := stands
  by_cases negative : n < 0
  · obtain ⟨k, rfl⟩ : ∃ k : Nat, n = -(k : Int) := ⟨n.natAbs, by omega⟩
    simp only [truncate?, quanta_of_negative same (by omega), and_self, ↓reduceIte]
    constructor
    · intro none; cases none
    · intro absurd; omega
  · obtain ⟨k, rfl⟩ := Int.eq_ofNat_of_zero_le (by omega : 0 ≤ n)
    obtain ⟨whole, nonnegative⟩ := quanta_of_natCast same
    simp only [truncate?, nonnegative, ↓reduceIte, Option.some.injEq]
    rw [whole, Nat.mul_div_cancel k one_pos, Int.natCast_inj]

theorem exactBound_mul_one_le {q : Nat} (large : exactBound * one ≤ q) : exactBound * one ≤ roundRatio q 1 := by
  obtain ⟨bits, power⟩ := one_eq_pow
  rw [power, exactBound, ← Nat.pow_add] at large ⊢
  have positive : q ≠ 0 := Nat.ne_of_gt (Nat.lt_of_lt_of_le (Nat.two_pow_pos _) large)
  have size : 53 + bits ≤ q.log2 := (Nat.le_log2 positive).2 large
  exact Nat.le_trans (Nat.pow_le_pow_right (by decide) size) (pow_log2_le_roundRatio positive)

/-- What an integer too great to be exact is rounded to is no small index. -/
theorem truncate?_large {d : Int} (large : exactBound < d.natAbs) {i : Nat} (small : i < exactBound) :
    (ofInt d).truncate? ≠ some i := by
  have rounded := exactBound_mul_one_le (Nat.mul_le_mul_right one (Nat.le_of_lt large))
  simp only [ofInt, ofRatio]
  generalize roundRatio (d.natAbs * one) 1 = q at rounded
  split
  · have index : exactBound ≤ q / one := (Nat.le_div_iff_mul_le one_pos).2 rounded
    simp only [truncate?]
    split
    · simp
    · simp only [ne_eq, Option.some.injEq]
      omega
  · simp [truncate?]

theorem ofDifference_eq (d : Int) : ofDifference (d * one) = ofInt d := by
  have positive : (0 : Int) < one := Int.natCast_pos.2 one_pos
  have sign : d * one < 0 ↔ d < 0 := by
    constructor
    · intro negative
      exact Int.not_le.1 fun nonnegative =>
        absurd negative (Int.not_lt.2 (Int.mul_nonneg nonnegative (Int.le_of_lt positive)))
    · exact fun negative => Int.mul_neg_of_neg_of_pos negative positive
  simp only [ofDifference, ofInt, sign, Int.natAbs_mul, Int.natAbs_natCast]

theorem sub_stands {x y : Binary64} {m n : Int} (first : x.Stands m) (second : y.Stands n) :
    (x.sub y).Stands (m - n) ∨ x.sub y = ofInt (m - n) := by
  obtain ⟨s, p, rfl, left⟩ := first
  obtain ⟨t, q, rfl, right⟩ := second
  by_cases zeros : p = 0 ∧ q = 0
  · obtain ⟨rfl, rfl⟩ := zeros
    refine .inl ⟨s && !t, 0, by simp [sub], ?_⟩
    have zero (sign : Bool) : signed sign 0 = 0 := by cases sign <;> rfl
    rw [Int.sub_mul, ← left, ← right]
    simp only [zero, Int.sub_self]
  · right
    rw [← ofDifference_eq, Int.sub_mul, ← left, ← right]
    simp only [sub, zeros, ↓reduceIte]

/-- A difference that is an integer of few bits is exact. -/
theorem stands_sub {x y : Binary64} {m n : Int} (first : x.Stands m) (second : y.Stands n)
    (small : (m - n).natAbs ≤ exactBound) : (x.sub y).Stands (m - n) := by
  rcases sub_stands first second with stands | same
  · exact stands
  · rw [same]
    exact stands_ofInt small

/-- The difference of two integers is the index it should be, as far as indices go. -/
theorem truncate?_sub {x y : Binary64} {m n : Int} (first : x.Stands m) (second : y.Stands n) {i : Nat}
    (small : i < exactBound) : (x.sub y).truncate? = some i ↔ m - n = i := by
  rcases sub_stands first second with stands | same
  · exact truncate?_stands stands i
  · by_cases large : exactBound < (m - n).natAbs
    · rw [same]
      exact iff_of_false (truncate?_large large small) (by omega)
    · rw [same]
      exact truncate?_stands (stands_ofInt (Nat.le_of_not_lt large)) i

/-- A double that is a natural number says which. -/
theorem toInt?_stands {x : Binary64} {k : Nat} (stands : x.Stands k) : x.toInt? = some (k : Int) := by
  obtain ⟨s, q, rfl, same⟩ := stands
  obtain ⟨whole, nonnegative⟩ := quanta_of_natCast same
  have sign : signed s k = k := by
    cases s with
    | false => rfl
    | true =>
      have zero : k = 0 := Nat.eq_zero_of_not_pos fun positive => nonnegative ⟨rfl, by
        rw [whole]
        exact Nat.le_mul_of_pos_left one positive⟩
      rw [zero]
      rfl
  rw [toInt?, whole, Nat.mul_mod_left, if_pos rfl, Nat.mul_div_cancel k one_pos, sign]

/-- However it is rounded, a natural number is not below zero. -/
theorem compare?_ofNat_zero (k : Nat) : ∃ o, compare? (ofNat k) (ofInt 0) = some o ∧ o.isGE = true := by
  obtain ⟨s, q, zero, same⟩ : (ofInt 0).Stands 0 := stands_ofInt (Nat.zero_le _)
  rw [zero]
  simp only [ofNat, ofRatio]
  split
  · refine ⟨_, rfl, ?_⟩
    rw [same, Int.zero_mul, Int.isGE_compare]
    exact Int.natCast_nonneg _
  · exact ⟨_, rfl, rfl⟩

end ProxyRouting.Binary64
