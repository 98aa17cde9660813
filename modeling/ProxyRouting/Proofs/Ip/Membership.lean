import ProxyRouting.Ip.Network

/-!
The addresses of a network, bit by bit. A network is asked by dividing: what is left of an address behind its
length is cut off as a remainder. The bits that stay are the leading ones, so an address is in a network exactly if
it is of the same family and has the same bits up to the length (`contains_iff`), whatever comes behind them.
-/
namespace ProxyRouting.Ip

/-- A bit of an address, counted from the leading one. -/
def Address.bit (a : Address) (i : Nat) : Bool := a.value.testBit (a.width - 1 - i)

theorem Address.value_lt (a : Address) : a.value < 2 ^ a.width := by
  cases a with
  | v4 bits => exact bits.isLt
  | v6 bits => exact bits.isLt

theorem width_of_isV4 {a b : Address} (family : a.isV4 = b.isV4) : a.width = b.width := by
  cases a <;> cases b <;> first | rfl | cases family

/-- Quotients by a power of two are the same if the bits from that place on are; above their width, numbers have
    no bits that could differ. -/
theorem div_two_pow_eq_iff {width low x y : Nat} (inside : x < 2 ^ width) (inside' : y < 2 ^ width) :
    x / 2 ^ low = y / 2 ^ low ↔ ∀ place, low ≤ place → place < width → x.testBit place = y.testBit place := by
  constructor
  · intro same place above _
    have bit := congrArg (fun n => n.testBit (place - low)) same
    simp only [Nat.testBit_div_two_pow] at bit
    rwa [Nat.sub_add_cancel above] at bit
  · intro bits
    refine Nat.eq_of_testBit_eq fun i => ?_
    rw [Nat.testBit_div_two_pow, Nat.testBit_div_two_pow]
    by_cases within : i + low < width
    · exact bits (i + low) (Nat.le_add_left low i) within
    · have beyond : 2 ^ width ≤ 2 ^ (i + low) := Nat.pow_le_pow_right (by decide) (Nat.le_of_not_lt within)
      rw [Nat.testBit_lt_two_pow (Nat.lt_of_lt_of_le inside beyond),
        Nat.testBit_lt_two_pow (Nat.lt_of_lt_of_le inside' beyond)]

/-- The leading bits of two addresses of one width are the same if what stands before the others is. -/
theorem leading_eq_iff {a b : Address} (widths : a.width = b.width) {length : Nat} (fits : length ≤ b.width) :
    a.value / 2 ^ (b.width - length) = b.value / 2 ^ (b.width - length) ↔ ∀ i < length, a.bit i = b.bit i := by
  rw [div_two_pow_eq_iff (widths ▸ a.value_lt) b.value_lt]
  simp only [Address.bit, widths]
  constructor
  · intro bits i leading
    exact bits (b.width - 1 - i) (by omega) (by omega)
  · intro bits place above within
    have leading : b.width - 1 - place < length := by omega
    have mirrored : b.width - 1 - (b.width - 1 - place) = place := by omega
    have bit := bits (b.width - 1 - place) leading
    rwa [mirrored] at bit

/-- A network has the addresses of its family that begin with the same bits. -/
theorem Network.contains_iff (n : Network) (a : Address) :
    n.contains a = true ↔ a.isV4 = n.address.isV4 ∧ ∀ i < n.length, a.bit i = n.address.bit i := by
  simp only [Network.contains, Bool.and_eq_true, beq_iff_eq]
  refine and_congr_right fun family => ?_
  exact leading_eq_iff (width_of_isV4 family) n.length_le

end ProxyRouting.Ip
