import Mathlib

/-! # Binary64 quotients of integers and their comparison

A binary64 value is finite, an infinity or NaN. The quotient of two integers
that binary64 represents exactly is the exact quotient rounded to 53
significant bits, ties to even. Operands of at most 31 bits keep every nonzero
quotient inside the normal range, so the exponent is left unbounded here.

Away from NaN, `<` and `==` are the order and the equality of the extended
rational line, where the values are placed by `toExt`.
-/

namespace Binary64

set_option autoImplicit false

/-- A binary64 value: a finite value (its exact rational value), an infinity, or NaN. -/
inductive Value where
  | finite (q : ℚ)
  | inf (neg : Bool)
  | nan
deriving DecidableEq

def roundHalfEven (m : ℚ) : ℤ :=
  let f := ⌊m⌋
  let r := m - f
  if r < 1 / 2 then f
  else if 1 / 2 < r then f + 1
  else if f % 2 = 0 then f else f + 1

/-- The binary64 value nearest to a positive rational `q`: the exponent `e` puts
`q / 2 ^ e` in `[2 ^ 52, 2 ^ 53)`, and that significand is rounded to an integer. -/
def roundPos (q : ℚ) : ℚ :=
  let e0 : ℤ := (Nat.log2 q.num.natAbs : ℤ) - Nat.log2 q.den - 52
  let e := if q / 2 ^ e0 < 2 ^ 52 then e0 - 1 else e0
  roundHalfEven (q / 2 ^ e) * 2 ^ e

def div (n d : ℤ) : Value :=
  if d = 0 then
    if 0 < n then .inf false else if n < 0 then .inf true else .nan
  else
    let q : ℚ := n / d
    if 0 < q then .finite (roundPos q)
    else if q < 0 then .finite (-roundPos (-q))
    else .finite 0

theorem div_ne_nan {n d : ℤ} (hd : d ≠ 0) : div n d ≠ .nan := by
  simp only [div, if_neg hd]
  split_ifs <;> simp

def lt : Value → Value → Bool
  | .finite a, .finite b => decide (a < b)
  | .finite _, .inf neg => !neg
  | .inf neg, .finite _ => neg
  | .inf a, .inf b => a && !b
  | _, _ => false

/-- The `==` of binary64: NaN equals nothing, not even itself. -/
def beq : Value → Value → Bool
  | .finite a, .finite b => decide (a = b)
  | .inf a, .inf b => a == b
  | _, _ => false

/-- The place of a value on the extended rational line; NaN, which has none, is put at `⊥`. -/
def Value.toExt : Value → WithBot (WithTop ℚ)
  | .finite q => ((q : WithTop ℚ) : WithBot (WithTop ℚ))
  | .inf false => ((⊤ : WithTop ℚ) : WithBot (WithTop ℚ))
  | .inf true => ⊥
  | .nan => ⊥

theorem lt_iff_toExt {a b : Value} (ha : a ≠ .nan) (hb : b ≠ .nan) :
    lt a b = true ↔ a.toExt < b.toExt := by
  cases a with
  | finite x =>
    cases b with
    | finite y => simp [lt, Value.toExt]
    | inf neg => cases neg <;> simp [lt, Value.toExt, lt_top_iff_ne_top]
    | nan => exact absurd rfl hb
  | inf na =>
    cases b with
    | finite y => cases na <;> simp [lt, Value.toExt]
    | inf nb => cases na <;> cases nb <;> simp [lt, Value.toExt]
    | nan => exact absurd rfl hb
  | nan => exact absurd rfl ha

theorem beq_iff_toExt {a b : Value} (ha : a ≠ .nan) (hb : b ≠ .nan) :
    beq a b = true ↔ a.toExt = b.toExt := by
  cases a with
  | finite x =>
    cases b with
    | finite y => simp [beq, Value.toExt]
    | inf neg => cases neg <;> simp [beq, Value.toExt]
    | nan => exact absurd rfl hb
  | inf na =>
    cases b with
    | finite y => cases na <;> simp [beq, Value.toExt]
    | inf nb => cases na <;> cases nb <;> simp [beq, Value.toExt]
    | nan => exact absurd rfl hb
  | nan => exact absurd rfl ha

@[simp] theorem lt_nan_left (b : Value) : lt .nan b = false := by
  cases b <;> rfl

@[simp] theorem beq_nan_left (b : Value) : beq .nan b = false := by
  cases b <;> rfl

end Binary64
