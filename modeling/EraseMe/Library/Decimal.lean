import Mathlib.Tactic
import Mathlib.Data.String.Basic

/-!
# Fixed-width decimal numerals

`fixed w n` writes the last `w` decimal digits of `n`, most significant first.  Numerals of one
width compare as texts exactly as they compare as numbers (`fixed_lt_fixed_iff`), and the greedy
left-to-right reader `takeNumber` reads them back (`number_fixed`).

Texts are compared lexicographically by code point.  `append_lt_append_iff` is the one fact about
that order a record of fixed-width columns needs.
-/

namespace Decimal

/-- The digit character of `n % 10`. -/
def digit (n : ℕ) : Char := Char.ofNat (48 + n % 10)

/-- The value of a digit character. -/
def value (c : Char) : ℕ := c.toNat - 48

/-- The last `w` decimal digits of `n`, most significant first. -/
def fixed : ℕ → ℕ → List Char
  | 0, _ => []
  | w + 1, n => digit (n / 10 ^ w) :: fixed w n

/-! ### Digits -/

theorem toNat_digit (n : ℕ) : (digit n).toNat = 48 + n % 10 := by
  have h : n % 10 < 10 := Nat.mod_lt _ (by norm_num)
  unfold digit
  generalize n % 10 = k at h
  interval_cases k <;> rfl

@[simp] theorem value_digit (n : ℕ) : value (digit n) = n % 10 := by
  simp [value, toNat_digit]

theorem isDigit_iff (c : Char) : c.isDigit = true ↔ 48 ≤ c.toNat ∧ c.toNat ≤ 57 := by
  simp only [Char.isDigit, Bool.and_eq_true, decide_eq_true_eq]
  rfl

@[simp] theorem isDigit_digit (n : ℕ) : (digit n).isDigit = true := by
  rw [isDigit_iff, toNat_digit]
  omega

theorem digit_lt_digit_iff (a b : ℕ) : digit a < digit b ↔ a % 10 < b % 10 := by
  rw [Char.lt_def, UInt32.lt_iff_toNat_lt]
  change (digit a).toNat < (digit b).toNat ↔ _
  rw [toNat_digit, toNat_digit]
  omega

theorem digit_eq_digit_iff (a b : ℕ) : digit a = digit b ↔ a % 10 = b % 10 := by
  constructor
  · intro h
    have := congrArg value h
    simpa using this
  · intro h
    simp [digit, h]

@[simp] theorem length_fixed (w n : ℕ) : (fixed w n).length = w := by
  induction w with
  | zero => rfl
  | succ w ih => simp [fixed, ih]

theorem isDigit_of_mem_fixed {w n : ℕ} {c : Char} (h : c ∈ fixed w n) : c.isDigit = true := by
  induction w with
  | zero => simp [fixed] at h
  | succ w ih =>
    rcases List.mem_cons.1 h with rfl | h
    · exact isDigit_digit _
    · exact ih h

/-! ### Order -/

/-- Texts that start with equally long columns compare column by column. -/
theorem append_lt_append_iff {a b l r : List Char} (h : a.length = b.length) :
    a ++ l < b ++ r ↔ a < b ∨ a = b ∧ l < r := by
  induction a generalizing b with
  | nil =>
    obtain rfl : b = [] := List.length_eq_zero_iff.1 h.symm
    simp
  | cons x a ih =>
    cases b with
    | nil => simp at h
    | cons y b =>
      simp only [List.cons_append, List.cons_lt_cons_iff, ih (by simpa using h), List.cons.injEq]
      tauto

private theorem mod_pow_succ (n w : ℕ) :
    n % 10 ^ (w + 1) = (n / 10 ^ w % 10) * 10 ^ w + n % 10 ^ w := by
  rw [pow_succ, Nat.mod_mul]
  ring

/-- Numerals of one width are ordered as texts by their values. -/
theorem fixed_lt_fixed_iff (w a b : ℕ) :
    fixed w a < fixed w b ↔ a % 10 ^ w < b % 10 ^ w := by
  induction w with
  | zero => simp [fixed, Nat.mod_one]
  | succ w ih =>
    have ha := Nat.mod_lt a (show 0 < 10 ^ w by positivity)
    have hb := Nat.mod_lt b (show 0 < 10 ^ w by positivity)
    simp only [fixed, List.cons_lt_cons_iff, digit_lt_digit_iff, digit_eq_digit_iff, ih,
      mod_pow_succ]
    generalize a / 10 ^ w % 10 = x
    generalize b / 10 ^ w % 10 = y
    generalize a % 10 ^ w = r at ha ⊢
    generalize b % 10 ^ w = s at hb ⊢
    constructor
    · rintro (h | ⟨rfl, h⟩)
      · nlinarith
      · omega
    · intro h
      rcases lt_trichotomy x y with hxy | rfl | hxy
      · exact Or.inl hxy
      · exact Or.inr ⟨rfl, by omega⟩
      · nlinarith

theorem fixed_inj {w a b : ℕ} (ha : a < 10 ^ w) (hb : b < 10 ^ w) (h : fixed w a = fixed w b) :
    a = b := by
  have h1 := fixed_lt_fixed_iff w a b
  have h2 := fixed_lt_fixed_iff w b a
  rw [h] at h1 h2
  have hirr : ¬ fixed w b < fixed w b := List.lt_irrefl _
  rw [Nat.mod_eq_of_lt ha, Nat.mod_eq_of_lt hb] at h1 h2
  have := h1.not.1 hirr
  have := h2.not.1 hirr
  omega

/-! ### Reading numerals back -/

/-- Read at most `max` digits onto `acc`, refusing values above `bound`. -/
def takeNumber (bound : ℕ) : ℕ → List Char → ℕ → Option (ℕ × List Char)
  | 0, s, acc => some (acc, s)
  | _, [], acc => some (acc, [])
  | max + 1, c :: s, acc =>
      if c.isDigit then
        if acc * 10 + value c ≤ bound then takeNumber bound max s (acc * 10 + value c) else none
      else some (acc, c :: s)

/-- Read between one and `max` digits. -/
def number (bound max : ℕ) (s : List Char) : Option (ℕ × List Char) :=
  match s with
  | [] => none
  | c :: _ => if c.isDigit then takeNumber bound max s 0 else none

/-- The reader stops at the end of the text or at a character that is no digit. -/
def Stops (s : List Char) : Prop := ∀ c ∈ s.head?, c.isDigit = false

theorem takeNumber_stops {bound max acc : ℕ} {s : List Char} (h : Stops s) :
    takeNumber bound max s acc = some (acc, s) := by
  cases max with
  | zero => rfl
  | succ max =>
    cases s with
    | nil => rfl
    | cons c s =>
      have hc : c.isDigit = false := h c rfl
      simp [takeNumber, hc]

/-- The reader consumes a whole numeral of width `w` when it may read `w` digits or more and
the numeral is not followed by another digit it may read. -/
theorem takeNumber_fixed {bound w max n acc : ℕ} {s : List Char} (hmax : w ≤ max)
    (hs : max = w ∨ Stops s) (hb : acc * 10 ^ w + n % 10 ^ w ≤ bound) :
    takeNumber bound max (fixed w n ++ s) acc = some (acc * 10 ^ w + n % 10 ^ w, s) := by
  induction w generalizing max acc with
  | zero =>
    simp only [fixed, List.nil_append, pow_zero, mul_one, Nat.mod_one, add_zero]
    rcases hs with rfl | hs
    · rfl
    · exact takeNumber_stops hs
  | succ w ih =>
    obtain ⟨max, rfl⟩ := Nat.exists_eq_add_of_le' (Nat.one_le_of_lt hmax)
    have hstep : (acc * 10 + n / 10 ^ w % 10) * 10 ^ w + n % 10 ^ w
        = acc * 10 ^ (w + 1) + n % 10 ^ (w + 1) := by
      rw [mod_pow_succ, pow_succ]; ring
    have hle : acc * 10 + n / 10 ^ w % 10 ≤ bound := by
      have hpos : 1 ≤ 10 ^ w := Nat.one_le_pow _ _ (by norm_num)
      have := Nat.mul_le_mul_left (acc * 10 + n / 10 ^ w % 10) hpos
      omega
    simp only [fixed, List.cons_append, takeNumber, isDigit_digit, value_digit, if_true, if_pos hle]
    rw [ih (by omega) (hs.imp_left Nat.succ.inj) (by omega), hstep]

/-- A numeral of positive width reads back as its value. -/
theorem number_fixed {bound w max n : ℕ} {s : List Char} (hw : 0 < w) (hmax : w ≤ max)
    (hs : max = w ∨ Stops s) (hn : n < 10 ^ w) (hb : n ≤ bound) :
    number bound max (fixed w n ++ s) = some (n, s) := by
  obtain ⟨w, rfl⟩ := Nat.exists_eq_add_of_le' hw
  have hle : 0 * 10 ^ (w + 1) + n % 10 ^ (w + 1) ≤ bound := by
    rw [Nat.mod_eq_of_lt hn]; omega
  have hread := takeNumber_fixed hmax hs hle
  rw [Nat.mod_eq_of_lt hn, zero_mul, zero_add] at hread
  simpa [number, fixed] using hread

theorem foldl_fixed (w n acc : ℕ) :
    (fixed w n).foldl (fun v c => v * 10 + value c) acc = acc * 10 ^ w + n % 10 ^ w := by
  induction w generalizing acc with
  | zero => simp [fixed, Nat.mod_one]
  | succ w ih =>
    rw [fixed, List.foldl_cons, ih, value_digit, mod_pow_succ, pow_succ]
    ring

end Decimal
