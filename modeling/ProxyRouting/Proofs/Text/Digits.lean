import Mathlib.Data.List.TakeWhile
import ProxyRouting.Proofs.Text.Lower
import ProxyRouting.Text.Digits

/-!
Numbers written in digits and read back. Decimal text is made of digits, has no leading zeros and says how
great the number is; hexadecimal text likewise. A run of characters of a kind is cut off a text where the kind
ends (`takeWhile_run`, `dropWhile_run`).
-/
namespace ProxyRouting.Text

/-- What holds of all characters of a text is decided over the text, and not over all characters there are. -/
theorem forall_mem_of_all {p : Char → Prop} [DecidablePred p] {t : Text} (all : t.all (fun c => p c) = true) :
    ∀ c ∈ t, p c := fun c member => of_decide_eq_true (List.all_eq_true.1 all c member)

/-- The text does not go on with a character of the kind. -/
def Stops (kind : Char → Bool) (rest : Text) : Prop := ∀ c ∈ rest.head?, kind c = false

theorem stops_nil (kind : Char → Bool) : Stops kind [] := by simp [Stops]

theorem stops_cons {kind : Char → Bool} {c : Char} (other : kind c = false) (t : Text) : Stops kind (c :: t) := by
  simpa [Stops] using other

theorem stops_append {kind : Char → Bool} {s : Text} (stops : Stops kind s) (some : s ≠ []) (t : Text) :
    Stops kind (s ++ t) := by
  obtain ⟨c, s, rfl⟩ := List.exists_cons_of_ne_nil some
  exact stops

theorem stops_of_append {kind : Char → Bool} {s t : Text} (stops : Stops kind (s ++ t)) (present : s ≠ []) :
    Stops kind s := by
  obtain ⟨c, s, rfl⟩ := List.exists_cons_of_ne_nil present
  exact stops

theorem takeWhile_stops {kind : Char → Bool} {rest : Text} (stops : Stops kind rest) : rest.takeWhile kind = [] := by
  cases rest with
  | nil => rfl
  | cons c rest => simp [stops c rfl]

theorem head_takeWhile {kind : Char → Bool} {t : Text} {c : Char} (other : ∀ rest, t ≠ c :: rest) :
    (t.takeWhile kind).head? ≠ some c := by
  intro head
  obtain ⟨rest, whole⟩ := List.takeWhile_prefix kind (l := t)
  obtain ⟨run, same⟩ := List.head?_eq_some_iff.1 head
  exact other (run ++ rest) (by rw [← whole, same, List.cons_append])

theorem takeWhile_run {kind : Char → Bool} {run rest : Text} (inside : ∀ c ∈ run, kind c = true)
    (stops : Stops kind rest) : (run ++ rest).takeWhile kind = run := by
  rw [List.takeWhile_append_of_pos inside, takeWhile_stops stops, List.append_nil]

theorem dropWhile_run {kind : Char → Bool} {run rest : Text} (inside : ∀ c ∈ run, kind c = true)
    (stops : Stops kind rest) : (run ++ rest).dropWhile kind = rest := by
  rw [List.dropWhile_append_of_pos inside]
  cases rest with
  | nil => rfl
  | cons c rest => simp [stops c rfl]

theorem isDigit_of_mem_ofNat {n : Nat} : ∀ c ∈ ofNat n, c.isDigit = true :=
  fun _ member => Nat.isDigit_of_mem_toDigits (by decide) (by decide) member

theorem ofNat_ne_nil (n : Nat) : ofNat n ≠ [] := Nat.toDigits_ne_nil

theorem digitsValue_ofNat (n : Nat) : digitsValue (ofNat n) = n := Nat.ofDigitChars_ten_toDigits

theorem length_ofNat_le {n k : Nat} (small : n < 10 ^ k) (positive : 0 < k) : (ofNat n).length ≤ k :=
  (Nat.length_toDigits_le_iff (by decide) positive).2 small

/-- Only zero begins with the digit zero. -/
theorem head_ofNat {n : Nat} (positive : 0 < n) : (ofNat n).head? ≠ some '0' := by
  induction n using Nat.strongRecOn with
  | ind n ih =>
    rw [ofNat, Nat.toDigits_eq_if (by decide)]
    split
    · next single =>
      have digits : ∀ d < 10, 0 < d → d.digitChar ≠ '0' := by decide
      simpa using digits n single positive
    · have shorter := ih (n / 10) (by omega) (by omega)
      rw [List.head?_append, Option.or_of_isSome (by simp [List.isSome_head?, Nat.toDigits_ne_nil])]
      exact shorter

theorem length_of_head_ofNat {n : Nat} (zero : (ofNat n).head? = some '0') : (ofNat n).length = 1 := by
  cases n with
  | zero => rfl
  | succ n => exact absurd zero (head_ofNat (Nat.succ_pos n))

theorem hexValue?_digitChar {d : Nat} (digit : d < 16) : hexValue? d.digitChar = some d := by
  have each : ∀ d < 16, hexValue? (Nat.digitChar d) = some d := by decide
  exact each d digit

theorem mem_hexLower {n : Nat} : ∀ c ∈ hexLower n, ∃ d < 16, c = d.digitChar := by
  induction n using Nat.strongRecOn with
  | ind n ih =>
    intro c member
    rw [hexLower, Nat.toDigits_eq_if (by decide)] at member
    split at member
    · next single => exact ⟨n, single, by simpa using member⟩
    · rcases List.mem_append.1 member with front | last
      · exact ih (n / 16) (by omega) c front
      · exact ⟨n % 16, Nat.mod_lt n (by decide), by simpa using last⟩

theorem mem_hexUpper {n : Nat} : ∀ c ∈ hexUpper n, ∃ d < 16, c = d.digitChar.toUpper := by
  intro c member
  obtain ⟨d, inside, rfl⟩ := List.mem_map.1 member
  obtain ⟨k, small, rfl⟩ := mem_hexLower d inside
  exact ⟨k, small, rfl⟩

theorem hexLower_ne_nil (n : Nat) : hexLower n ≠ [] := Nat.toDigits_ne_nil

theorem length_hexLower_le {n k : Nat} (small : n < 16 ^ k) (positive : 0 < k) : (hexLower n).length ≤ k :=
  (Nat.length_toDigits_le_iff (by decide) positive).2 small

/-- The number that hexadecimal digits stand for, read on from a number already read. -/
def hexValue (start : Nat) (digits : Text) : Nat := digits.foldl (fun n c => n * 16 + (hexValue? c).getD 0) start

theorem hexValue_hexLower (n : Nat) : hexValue 0 (hexLower n) = n := by
  induction n using Nat.strongRecOn with
  | ind n ih =>
    rw [hexLower, Nat.toDigits_eq_if (by decide)]
    split
    · next single => simp [hexValue, hexValue?_digitChar single]
    · have shorter := ih (n / 16) (by omega)
      rw [hexValue, hexLower] at shorter
      rw [hexValue, List.foldl_append, shorter]
      simp only [List.foldl_cons, List.foldl_nil, hexValue?_digitChar (Nat.mod_lt n (by decide : 16 > 0)), Option.getD_some]
      omega

theorem hexDigits?_append {count n : Nat} {digits : Text} (read : hexDigits? count digits = some (n, []))
    (t : Text) : hexDigits? count (digits ++ t) = some (n, t) := by
  have go : ∀ (count value : Nat) (digits : Text), hexDigits?.go count value digits = some (n, []) →
      hexDigits?.go count value (digits ++ t) = some (n, t) := by
    intro count
    induction count with
    | zero =>
      intro value digits read
      simp only [hexDigits?.go, Option.some.injEq, Prod.mk.injEq] at read
      obtain ⟨rfl, rfl⟩ := read
      rfl
    | succ count ih =>
      intro value digits read
      cases digits with
      | nil => cases read
      | cons c digits =>
        obtain ⟨digit, known, read⟩ := Option.bind_eq_some_iff.1 read
        rw [List.cons_append, hexDigits?.go, known]
        exact ih _ _ read
  exact go count 0 digits read

/-- Hexadecimal digits are read in either case. -/
theorem hexValue?_toLower (c : Char) : hexValue? c.toLower = hexValue? c := by
  have ascii : ∀ n < 128, hexValue? (Char.ofNat n).toLower = hexValue? (Char.ofNat n) := by decide
  rcases toLower_cases c with ⟨upper, _⟩ | ⟨_, kept⟩
  · have bounds := (isUpper_iff c).1 upper
    have here := ascii c.toNat (by omega)
    rwa [Char.ofNat_toNat] at here
  · rw [kept]

theorem hexDigits?_lower (count : Nat) (t : Text) :
    hexDigits? count (lower t) = (hexDigits? count t).map (Prod.map id lower) := by
  have go (value : Nat) : hexDigits?.go count value (lower t) =
      (hexDigits?.go count value t).map (Prod.map id lower) := by
    induction count generalizing value t with
    | zero => rfl
    | succ count ih =>
      cases t with
      | nil => rfl
      | cons c t =>
        show (hexValue? c.toLower).bind _ = _
        rw [hexValue?_toLower, hexDigits?.go]
        cases hexValue? c with
        | none => rfl
        | some digit => exact ih t (value * 16 + digit)
  exact go 0

theorem hexDigits?_run {digits : Text} (known : ∀ c ∈ digits, (hexValue? c).isSome) :
    hexDigits? digits.length digits = some (hexValue 0 digits, []) := by
  have go (value : Nat) : hexDigits?.go digits.length value digits = some (hexValue value digits, []) := by
    induction digits generalizing value with
    | nil => rfl
    | cons c digits ih =>
      obtain ⟨digit, read⟩ := Option.isSome_iff_exists.1 (known c (by simp))
      have later := ih (fun d member => known d (by simp [member])) (value * 16 + digit)
      rw [List.length_cons, hexDigits?.go, read, Option.bind_some, later, hexValue, hexValue, List.foldl_cons, read,
        Option.getD_some]
  exact go 0

theorem hexValue?_toUpper {d : Nat} (digit : d < 16) : hexValue? d.digitChar.toUpper = some d := by
  have each : ∀ d < 16, hexValue? (Nat.digitChar d).toUpper = some d := by decide
  exact each d digit

theorem hexValue_upper {t : Text} (known : ∀ c ∈ t, ∃ d < 16, c = d.digitChar) (start : Nat) :
    hexValue start (upper t) = hexValue start t := by
  induction t generalizing start with
  | nil => rfl
  | cons c t ih =>
    obtain ⟨d, small, rfl⟩ := known c (by simp)
    have later := ih (fun e member => known e (List.mem_cons_of_mem _ member)) (start * 16 + d)
    rw [hexValue, hexValue, upper, List.map_cons, List.foldl_cons, List.foldl_cons, hexValue?_toUpper small,
      hexValue?_digitChar small]
    exact later

/-- Upper-case digits are read as the number that they are written for. -/
theorem hexDigits?_hexUpper (n : Nat) : hexDigits? (hexUpper n).length (hexUpper n) = some (n, []) := by
  have known : ∀ c ∈ hexUpper n, (hexValue? c).isSome := by
    intro c member
    obtain ⟨d, small, rfl⟩ := mem_hexUpper c member
    rw [hexValue?_toUpper small]
    rfl
  rw [hexDigits?_run known, hexUpper, hexValue_upper mem_hexLower, hexValue_hexLower]

theorem length_padZeros (width : Nat) (t : Text) : (padZeros width t).length = max width t.length := by
  rw [padZeros, List.length_append, List.length_replicate]
  omega

/-- A number that is small enough is read back from its digits behind zeros. -/
theorem hexDigits?_padZeros {count n : Nat} (small : n < 16 ^ count) (positive : 0 < count) :
    hexDigits? count (padZeros count (hexLower n)) = some (n, []) := by
  have short := length_hexLower_le small positive
  have known : ∀ c ∈ padZeros count (hexLower n), (hexValue? c).isSome := by
    intro c member
    rcases List.mem_append.1 member with zero | digit
    · rw [List.eq_of_mem_replicate zero]
      rfl
    · obtain ⟨d, below, rfl⟩ := mem_hexLower c digit
      rw [hexValue?_digitChar below]
      rfl
  have value : hexValue 0 (padZeros count (hexLower n)) = n := by
    have zeros (k : Nat) : hexValue 0 (List.replicate k '0') = 0 := by
      induction k with
      | zero => rfl
      | succ k ih => exact ih
    have front := zeros (count - (hexLower n).length)
    have behind := hexValue_hexLower n
    rw [hexValue] at front behind
    rw [hexValue, padZeros, List.foldl_append, front, behind]
  have width : (padZeros count (hexLower n)).length = count := by
    rw [length_padZeros]
    omega
  have read := hexDigits?_run known
  rwa [width, value] at read

end ProxyRouting.Text
