import ScopedStyles.Text.Base36

namespace ScopedStyles.Base36

def digitValue (c : Char) : Nat :=
  if c.toNat < 58 then c.toNat - 48 else c.toNat - 87

/-- What a numeral is worth, its most significant digit first. -/
def value (cs : List Char) : Nat :=
  cs.foldl (fun n c => n * 36 + digitValue c) 0

theorem digitValue_digit {n : Nat} (h : n < 36) : digitValue (digit n) = n := by
  have hall : ∀ m < 36, digitValue (digit m) = m := by decide
  exact hall n h

theorem value_digits (n : Nat) : value (digits n) = n := by
  induction n using Nat.strongRecOn with
  | ind n ih =>
    by_cases hn : n < 36
    · rw [digits_of_lt hn, value, List.foldl_cons, List.foldl_nil, Nat.zero_mul, Nat.zero_add,
        digitValue_digit hn]
    · have hfront : value (digits (n / 36)) = n / 36 := ih (n / 36) (by omega)
      have hlast := digitValue_digit (Nat.mod_lt n (by decide : 0 < 36))
      rw [value] at hfront
      rw [digits_of_le (by omega), value, List.foldl_append, hfront, List.foldl_cons,
        List.foldl_nil, hlast, Nat.div_add_mod']

theorem encode_injective : Function.Injective encode := by
  intro m n h
  have hdigits : digits m = digits n := String.ofList_injective h
  rw [← value_digits m, hdigits, value_digits]

def IsDigit (c : Char) : Prop :=
  ('0' ≤ c ∧ c ≤ '9') ∨ ('a' ≤ c ∧ c ≤ 'z')

instance (c : Char) : Decidable (IsDigit c) :=
  inferInstanceAs (Decidable (_ ∨ _))

theorem isDigit_digit {n : Nat} (h : n < 36) : IsDigit (digit n) := by
  have hall : ∀ m < 36, IsDigit (digit m) := by decide
  exact hall n h

theorem isDigit_of_mem_digits {n : Nat} {c : Char} (h : c ∈ digits n) : IsDigit c := by
  induction n using Nat.strongRecOn with
  | ind n ih =>
    by_cases hn : n < 36
    · rw [digits_of_lt hn, List.mem_singleton] at h
      exact h ▸ isDigit_digit hn
    · rw [digits_of_le (by omega), List.mem_append, List.mem_singleton] at h
      rcases h with h | rfl
      · exact ih (n / 36) (by omega) h
      · exact isDigit_digit (Nat.mod_lt n (by decide))

theorem digit_eq_zero_iff {n : Nat} (h : n < 36) : digit n = '0' ↔ n = 0 := by
  have hall : ∀ m < 36, digit m = '0' ↔ m = 0 := by decide
  exact hall n h

/-- Leading zeros are never written. -/
theorem head?_digits (n : Nat) : (digits n).head? = some '0' ↔ n = 0 := by
  induction n using Nat.strongRecOn with
  | ind n ih =>
    by_cases hn : n < 36
    · rw [digits_of_lt hn, List.head?_cons, Option.some_inj, digit_eq_zero_iff hn]
    · have hfront : (digits (n / 36)).head? ≠ none := by
        rw [ne_eq, List.head?_eq_none_iff]
        exact digits_ne_nil _
      have hzero := ih (n / 36) (by omega)
      rw [digits_of_le (by omega), List.head?_append, Option.or_of_isSome
        (Option.isSome_iff_ne_none.2 hfront), hzero]
      omega

end ScopedStyles.Base36
