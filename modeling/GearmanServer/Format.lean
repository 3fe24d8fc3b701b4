import GearmanServer.Basic
import Mathlib.Algebra.Group.Nat.Basic

/-!
# The `"%s:%u"` job handle

`%u` prints a `uint32_t` in at most ten digits, none of them NUL, and reading the digits back
gives the number. So a handle is a C string, and with a prefix of at most 52 bytes the 64-byte
buffer never cuts it: the handle then determines the counter value it was made from.
-/

namespace GearmanServer

def digitsValue (b : Bytes) : Nat := b.foldl (fun acc d => acc * 10 + (d.toNat - 48)) 0

theorem digitsValue_concat (b : Bytes) (d : UInt8) :
    digitsValue (b ++ [d]) = digitsValue b * 10 + (d.toNat - 48) := by
  simp only [digitsValue, List.foldl_append, List.foldl_cons, List.foldl_nil]

theorem digit_toNat (n : Nat) : (48 + n % 10).toUInt8.toNat = 48 + n % 10 := by
  simp [Nat.toUInt8, UInt8.toNat, UInt8.ofNat]
  omega

theorem digitsValue_decimalDigits : ∀ fuel n, n < fuel → digitsValue (decimalDigits fuel n) = n
  | 0, n, h => absurd h (Nat.not_lt_zero n)
  | fuel + 1, n, h => by
    rw [decimalDigits, digitsValue_concat, digit_toNat]
    split_ifs with h0
    · simp only [digitsValue, List.foldl_nil]
      omega
    · rw [digitsValue_decimalDigits fuel (n / 10) (by omega)]
      omega

theorem decimal_injective {a b : Nat} (h : decimal a = decimal b) : a = b := by
  rw [← digitsValue_decimalDigits (a + 1) a (Nat.lt_succ_self a),
    ← digitsValue_decimalDigits (b + 1) b (Nat.lt_succ_self b)]
  exact congrArg digitsValue h

theorem decimalDigits_length : ∀ fuel n k, n < 10 ^ (k + 1) → (decimalDigits fuel n).length ≤ k + 1
  | 0, _, _, _ => Nat.zero_le _
  | fuel + 1, n, k, h => by
    rw [decimalDigits, List.length_append, List.length_singleton]
    split_ifs with h0
    · simp
    · cases k with
      | zero => omega
      | succ k =>
        rw [Nat.pow_succ] at h
        have := decimalDigits_length fuel (n / 10) k (by omega)
        omega

theorem decimal_length_le {n : Nat} (hn : n < 2 ^ 32) : (decimal n).length ≤ 10 :=
  decimalDigits_length _ n 9 (Nat.lt_of_lt_of_le hn (by decide))

theorem decimalDigits_ge : ∀ fuel n, ∀ x ∈ decimalDigits fuel n, 48 ≤ x.toNat
  | 0, _, _, h => by cases h
  | fuel + 1, n, x, h => by
    rw [decimalDigits, List.mem_append, List.mem_singleton] at h
    rcases h with h | rfl
    · split_ifs at h
      · cases h
      · exact decimalDigits_ge fuel _ x h
    · rw [digit_toNat]
      omega

theorem cString_formatJobHandle (pfx : Bytes) (c : UInt32) :
    cString (formatJobHandle pfx c) = formatJobHandle pfx c := by
  unfold cString
  rw [List.takeWhile_eq_self_iff]
  intro x hx
  have hx := List.mem_of_mem_take hx
  rw [List.mem_append, List.mem_cons] at hx
  rcases hx with hx | rfl | hx
  · have := List.mem_takeWhile_imp hx
    exact this
  · decide
  · have := decimalDigits_ge _ _ x hx
    simp only [ne_eq, decide_eq_true_eq]
    rintro rfl
    exact absurd this (by decide)

theorem formatJobHandle_eq {pfx : Bytes} (hp : (cString pfx).length ≤ 52) (c : UInt32) :
    formatJobHandle pfx c = cString pfx ++ 58 :: decimal c.toNat := by
  have := decimal_length_le c.toNat_lt_size
  refine List.take_of_length_le ?_
  simp only [List.length_append, List.length_cons, gearmanJobHandleSize]
  omega

theorem formatJobHandle_injective {pfx : Bytes} (hp : (cString pfx).length ≤ 52) {a b : UInt32}
    (h : formatJobHandle pfx a = formatJobHandle pfx b) : a = b := by
  rw [formatJobHandle_eq hp, formatJobHandle_eq hp] at h
  exact UInt32.toNat.inj (decimal_injective (List.cons.inj (List.append_cancel_left h)).2)

/-! ## The `"%.*s"` unique -/

theorem cString_of_not_mem {b : Bytes} (h : (0 : UInt8) ∉ b) : cString b = b :=
  List.takeWhile_eq_self_iff.2 fun x hx => by
    simp only [ne_eq, decide_eq_true_eq]
    rintro rfl
    exact h hx

theorem formatUnique_of_valid {u : Bytes} (hl : u.length < gearmanUniqueSize)
    (h0 : (0 : UInt8) ∉ u) : formatUnique u = u := by
  rw [formatUnique, snprintfTrunc, cString_of_not_mem h0]
  exact List.take_of_length_le (by omega)

theorem uniqueField_take {u : Bytes} (hl : u.length < gearmanUniqueSize) (h0 : (0 : UInt8) ∉ u) :
    (uniqueField (formatUnique u)).take u.length = u := by
  rw [formatUnique_of_valid hl h0, uniqueField, List.take_left]

end GearmanServer
