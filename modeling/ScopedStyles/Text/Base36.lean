namespace ScopedStyles.Base36

def digit (n : Nat) : Char :=
  if n < 10 then Char.ofNat (48 + n) else Char.ofNat (87 + n)

/-- The numeral of `n`, most significant digit first. -/
def digits (n : Nat) : List Char :=
  if n < 36 then [digit n] else digits (n / 36) ++ [digit (n % 36)]
termination_by n

def encode (n : Nat) : String :=
  String.ofList (digits n)

theorem digits_of_lt {n : Nat} (h : n < 36) : digits n = [digit n] := by
  rw [digits, if_pos h]

theorem digits_of_le {n : Nat} (h : 36 ≤ n) :
    digits n = digits (n / 36) ++ [digit (n % 36)] := by
  rw [digits, if_neg (by omega)]

theorem digits_ne_nil (n : Nat) : digits n ≠ [] := by
  rw [digits]
  split <;> simp

end ScopedStyles.Base36
