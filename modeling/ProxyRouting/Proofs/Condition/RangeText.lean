import ProxyRouting.Condition.Range
import ProxyRouting.Proofs.Ip.NetworkText

/-!
Ranges are read back from their text (`readBounds_rangeText`), and the bounds of a condition that was read are
ones that are read back as they are: at least one for levels, a day of the week, an hour of the day. A bound is
the number that its digits spell, however many they are, or the greatest value if that is less
(`foldl_pushDigit`), and none if no digit follows its white space and its sign (`bounds_read_exactly`).
-/
namespace ProxyRouting
open Text

/-- A digit behind a number that may have been too large already: stopping at the greatest value twice is stopping
    there once. -/
theorem pushDigit_min (n : Nat) (digit : Char) :
    pushDigit (min (n : Int) maxBound) digit = min ((10 * n + (digit.toNat - '0'.toNat) : Nat) : Int) maxBound := by
  unfold pushDigit Binary64.saturate maxBound
  omega

theorem foldl_pushDigit (digits : Text) : digits.foldl pushDigit 0 = min (digitsValue digits : Int) maxBound := by
  have go (n : Nat) : digits.foldl pushDigit (min (n : Int) maxBound) = min (Nat.ofDigitChars 10 digits n : Int) maxBound := by
    induction digits generalizing n with
    | nil => rfl
    | cons digit digits ih => rw [List.foldl_cons, pushDigit_min, ih, Nat.ofDigitChars_cons]
  exact go 0

theorem notMem_ofNat {c : Char} (noDigit : c.isDigit = false) (n : Nat) : c ∉ ofNat n := fun member => by
  rw [isDigit_of_mem_ofNat c member] at noDigit
  cases noDigit

theorem isBlank_ofNat (n : Nat) : ∀ c ∈ ofNat n, isBlank c = false := fun c member =>
  Ip.isBlank_of_isAddressChar (Ip.isAddressChar_of_isDigit (isDigit_of_mem_ofNat c member))

/-- A number is read from its digits. -/
theorem readBound?_ofNat {n : Nat} (small : n ≤ maxBound) : readBound? (ofNat n) = some (n : Int) := by
  have untrimmed : trimStart (ofNat n) = ofNat n :=
    dropWhile_run (by simp : ∀ c ∈ [], isBlank c = true) fun c head => isBlank_ofNat n c (List.mem_of_mem_head? head)
  have signless (c : Char) (t : Text) (sign : c.isDigit = false) : ofNat n ≠ c :: t := fun same =>
    notMem_ofNat sign n (by rw [same]; simp)
  have digits : (ofNat n).takeWhile Char.isDigit = ofNat n := by
    have whole := takeWhile_run (isDigit_of_mem_ofNat (n := n)) (stops_nil _)
    rwa [List.append_nil] at whole
  unfold readBound?
  rw [untrimmed]
  split
  · next negative t read =>
    split at read
    · next same => exact absurd same (signless '-' _ (by decide))
    · next same => exact absurd same (signless '+' _ (by decide))
    · cases read
      simp only [digits, foldl_pushDigit, digitsValue_ofNat, ofNat_ne_nil, ↓reduceIte, Bool.false_eq_true]
      exact congrArg some (Int.min_eq_left (Int.ofNat_le.2 small))

theorem readBounds_rangeText {first last : Nat} (small : first ≤ maxBound) (small' : last ≤ maxBound) :
    readBounds (rangeText first last) = (some (first : Int), some (last : Int)) := by
  have tilde (n : Nat) : '~' ∉ ofNat n := notMem_ofNat (by decide) n
  have split : (rangeText first last).splitOn '~' = [ofNat first, ofNat last] := by
    rw [rangeText, List.splitOn_append_cons_self_of_not_mem (tilde first), List.splitOn_eq_singleton (tilde last)]
  simp only [readBounds, split, readBound?_ofNat small, readBound?_ofNat small']

theorem trimmed_rangeText (first last : Nat) : Trimmed (rangeText first last) :=
  trimmed_joined (isBlank_ofNat first) (by decide) (isBlank_ofNat last)

theorem levelBound_pos (bound : Option Int) : 0 < (levelBound bound).toNat := by
  unfold levelBound
  split
  · next n =>
    split
    · have fits : min n.toNat (2 ^ 32 - 1) < 2 ^ 32 := by omega
      rw [UInt32.toNat_ofNat_of_lt' fits]
      omega
    · decide
  · decide

theorem levelBound_toNat {n : UInt32} (positive : 0 < n.toNat) : levelBound (some (n.toNat : Int)) = n := by
  have least : min n.toNat (2 ^ 32 - 1) = n.toNat := min_eq_left (Nat.le_sub_one_of_lt n.toNat_lt)
  rw [levelBound, if_pos (by exact_mod_cast positive), Int.toNat_natCast, least, UInt32.ofNat_toNat]

theorem boundWithin_le {most : Nat} (small : most < 256) (bound : Option Int) : (boundWithin most bound).toNat ≤ most := by
  unfold boundWithin
  split
  · next n =>
    split
    · next within =>
      rw [UInt8.toNat_ofNat_of_lt' (by omega : n.toNat < 2 ^ 8)]
      omega
    · exact Nat.zero_le most
  · exact Nat.zero_le most

theorem boundWithin_toNat {most : Nat} {n : UInt8} (within : n.toNat ≤ most) :
    boundWithin most (some (n.toNat : Int)) = n := by
  rw [boundWithin, if_pos ⟨Int.natCast_nonneg _, by exact_mod_cast within⟩, Int.toNat_natCast, UInt8.ofNat_toNat]

namespace Condition

theorem hostLevelsOfText_rangeText {min max : UInt32} (positive : 0 < min.toNat) (positive' : 0 < max.toNat) :
    hostLevelsOfText (rangeText min.toNat max.toNat) = .hostLevels min max := by
  have small (n : UInt32) : n.toNat ≤ maxBound := Nat.le_trans (Nat.le_of_lt n.toNat_lt) (by decide)
  rw [hostLevelsOfText, readBounds_rangeText (small min) (small max)]
  simp only [levelBound_toNat positive, levelBound_toNat positive']

theorem readBounds_byteRange (first last : UInt8) :
    readBounds (rangeText first.toNat last.toNat) = (some (first.toNat : Int), some (last.toNat : Int)) :=
  have small (n : UInt8) : n.toNat ≤ maxBound := Nat.le_trans (Nat.le_of_lt n.toNat_lt) (by decide)
  readBounds_rangeText (small first) (small last)

/-- The tilde tells a range of days from a mask. -/
theorem weekdayOfText_rangeText {first last : UInt8} (day : first.toNat ≤ 6) (day' : last.toNat ≤ 6) :
    weekdayOfText (rangeText first.toNat last.toNat) = .weekday none first last := by
  have tilde : '~' ∈ rangeText first.toNat last.toNat := by simp [rangeText]
  rw [weekdayOfText, if_neg fun mask => mask.1 tilde, readBounds_byteRange]
  simp only [boundWithin_toNat day, boundWithin_toNat day']

theorem timeOfText_rangeText {first last : UInt8} (hour : first.toNat ≤ 23) (hour' : last.toNat ≤ 23) :
    timeOfText (rangeText first.toNat last.toNat) = .time first last := by
  rw [timeOfText, readBounds_byteRange]
  simp only [boundWithin_toNat hour, boundWithin_toNat hour']

end Condition

/-- A text cut around the number that it begins with, which may have no digits. -/
structure BoundCut where
  space : Text
  sign : Text
  digits : Text
  rest : Text

namespace BoundCut

/-- The text of its parts. -/
def text (b : BoundCut) : Text := b.space ++ (b.sign ++ (b.digits ++ b.rest))

/-- Where the parts end: the white space at the first other character, the digits at the first character that is none.
    There is at most one sign, and there is one if it could be one. -/
structure Sound (b : BoundCut) : Prop where
  blank : ∀ c ∈ b.space, isBlank c = true
  solid : Stops isBlank (b.sign ++ (b.digits ++ b.rest))
  known : b.sign ∈ [[], ['-'], ['+']]
  signed : b.sign = [] → Stops (fun c => c == '-' || c == '+') (b.digits ++ b.rest)
  number : ∀ c ∈ b.digits, c.isDigit = true
  ends : Stops Char.isDigit b.rest

/-- What the sign says. -/
def factor (b : BoundCut) : Int := if b.sign = ['-'] then -1 else 1

/-- The cut behind white space and a sign, at the end of the digits that follow. -/
def behind (space sign t : Text) : BoundCut := ⟨space, sign, t.takeWhile Char.isDigit, t.dropWhile Char.isDigit⟩

theorem parts_behind (space sign t : Text) : (behind space sign t).digits ++ (behind space sign t).rest = t :=
  List.takeWhile_append_dropWhile

theorem text_behind (space sign t : Text) : (behind space sign t).text = space ++ (sign ++ t) := by
  rw [text, parts_behind]
  rfl

theorem sound_behind {space sign t : Text} (blank : ∀ c ∈ space, isBlank c = true) (solid : Stops isBlank (sign ++ t))
    (known : sign ∈ [[], ['-'], ['+']]) (signed : sign = [] → Stops (fun c => c == '-' || c == '+') t) :
    (behind space sign t).Sound := by
  refine ⟨blank, ?_, known, ?_, fun c member => List.mem_takeWhile_imp member, stops_dropWhile _ t⟩
  · rwa [parts_behind]
  · rwa [parts_behind]

/-- Behind white space there is one sign or none, and then come digits, of which there may be none. -/
theorem exists_cut (t : Text) : ∃ b : BoundCut, t = b.text ∧ b.Sound := by
  have blank : ∀ c ∈ t.takeWhile isBlank, isBlank c = true := fun c member => List.mem_takeWhile_imp member
  have whole : t = t.takeWhile isBlank ++ trimStart t := List.takeWhile_append_dropWhile.symm
  have solid : Stops isBlank (trimStart t) := stops_dropWhile isBlank t
  by_cases sign : ∃ c u, trimStart t = c :: u ∧ (c = '-' ∨ c = '+')
  · obtain ⟨c, u, start, sign⟩ := sign
    rw [start] at whole solid
    refine ⟨behind (t.takeWhile isBlank) [c] u, ?_, sound_behind blank solid ?_ (by simp)⟩
    · rw [text_behind]
      exact whole
    · rcases sign with rfl | rfl <;> simp
  · refine ⟨behind (t.takeWhile isBlank) [] (trimStart t), ?_, sound_behind blank solid (by simp) fun _ => ?_⟩
    · rw [text_behind]
      exact whole
    · intro c head
      obtain ⟨u, start⟩ := List.head?_eq_some_iff.1 head
      refine Bool.eq_false_iff.2 fun signed => sign ⟨c, u, start, ?_⟩
      simpa using signed

/-- The number at the front of a text is that of its digits, at most the greatest value, with its sign. -/
theorem readBound?_text {b : BoundCut} (sound : b.Sound) : readBound? b.text =
    if b.digits = [] then none else some (b.factor * min (digitsValue b.digits : Int) (2 ^ 63 - 1)) := by
  have start : trimStart b.text = b.sign ++ (b.digits ++ b.rest) := dropWhile_run sound.blank sound.solid
  have run : (b.digits ++ b.rest).takeWhile Char.isDigit = b.digits := takeWhile_run sound.number sound.ends
  have most : ((maxBound : Nat) : Int) = 2 ^ 63 - 1 := by decide
  unfold readBound?
  rw [start]
  have known := sound.known
  simp only [List.mem_cons, List.not_mem_nil, or_false] at known
  rcases known with none | minus | plus
  · have unsigned := sound.signed none
    have factor : b.factor = 1 := by simp [BoundCut.factor, none]
    rw [none, List.nil_append]
    split
    · next negative t read =>
      split at read
      · next same => exact absurd (unsigned '-' (by simp [same])) (by decide)
      · next same => exact absurd (unsigned '+' (by simp [same])) (by decide)
      · cases read
        simp only [run, foldl_pushDigit, most, factor, Int.one_mul, Bool.false_eq_true, ↓reduceIte]
  · have factor : b.factor = -1 := by simp [BoundCut.factor, minus]
    simp only [minus, List.cons_append, List.nil_append, run, foldl_pushDigit, most, factor, ↓reduceIte, Int.neg_mul,
      Int.one_mul]
  · have factor : b.factor = 1 := by simp [BoundCut.factor, plus]
    simp only [plus, List.cons_append, List.nil_append, run, foldl_pushDigit, most, factor, Int.one_mul,
      Bool.false_eq_true, ↓reduceIte]

end BoundCut

/-- A text has a bound exactly if a digit follows its white space and its sign, and the bound is then the number of all
    digits that follow, at most the greatest of 64 bits, with the sign. The ranges of levels, days and hours are read
    back from their texts as they are. -/
theorem bounds_read_exactly :
    (∀ t : Text, ∃ b : BoundCut, t = b.text ∧ b.Sound) ∧
      (∀ b : BoundCut, b.Sound → (readBound? b.text = none ↔ b.digits = []) ∧
        (b.digits ≠ [] → readBound? b.text = some (b.factor * min (digitsValue b.digits : Int) (2 ^ 63 - 1)))) ∧
      (∀ min max : UInt32, 1 ≤ min → 1 ≤ max →
        Condition.hostLevelsOfText (rangeText min.toNat max.toNat) = .hostLevels min max) ∧
      (∀ first last : UInt8, first ≤ 6 → last ≤ 6 →
        Condition.weekdayOfText (rangeText first.toNat last.toNat) = .weekday none first last) ∧
      ∀ first last : UInt8, first ≤ 23 → last ≤ 23 →
        Condition.timeOfText (rangeText first.toNat last.toNat) = .time first last := by
  refine ⟨BoundCut.exists_cut, fun b sound => ?_, ?_, ?_, ?_⟩
  · rw [BoundCut.readBound?_text sound]
    by_cases empty : b.digits = []
    · simp [empty]
    · simp [empty]
  · exact fun min max positive positive' => Condition.hostLevelsOfText_rangeText positive positive'
  · exact fun first last day day' => Condition.weekdayOfText_rangeText day day'
  · exact fun first last hour hour' => Condition.timeOfText_rangeText hour hour'

/-- A number that is too large, with a sign; all levels, days that go over the end of the week, and one hour. -/
theorem bounds_read_exactly_large :
    readBound? "\t-99999999999999999999.5".toList = some (-(2 ^ 63 - 1)) ∧
      Condition.hostLevelsOfText "1~4294967295".toList = .hostLevels 1 4294967295 ∧
      Condition.weekdayOfText "6~0".toList = .weekday none 6 0 ∧ Condition.timeOfText "23~23".toList = .time 23 23 := by
  obtain ⟨-, bound, levels, days, hours⟩ := bounds_read_exactly
  let b : BoundCut := ⟨['\t'], ['-'], "99999999999999999999".toList, ".5".toList⟩
  have sound : b.Sound :=
    ⟨forall_mem_of_all (by decide), stops_cons (by decide) _, by decide, fun none => absurd none (by decide),
      forall_mem_of_all (by decide), stops_cons (by decide) _⟩
  have factor : b.factor = -1 := rfl
  have number : digitsValue b.digits = 99999999999999999999 := rfl
  have value : b.factor * min (digitsValue b.digits : Int) (2 ^ 63 - 1) = -(2 ^ 63 - 1) := by
    rw [factor, number]
    omega
  refine ⟨?_, ?_, ?_, ?_⟩
  · rw [← value]
    exact (bound b sound).2 (by decide)
  · exact levels 1 4294967295 (by decide) (by decide)
  · exact days 6 0 (by decide) (by decide)
  · exact hours 23 23 (by decide) (by decide)

end ProxyRouting
