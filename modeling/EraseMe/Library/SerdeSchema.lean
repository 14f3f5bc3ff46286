import EraseMe.Library.JsonSchema
import EraseMe.Library.Serde

/-!
# Decoders and schemas

What a decoder accepts of plain data satisfies the keywords about its type.
-/

namespace Serde

open JsonSchema Yaml

variable {α : Type} {v : Json} {a : α}

theorem type_string {s : String} (h : string (ofJson v) = .ok s) : type .string v = true := by
  rw [string_ofJson h]
  rfl

theorem type_boolean {b : Bool} (h : bool (ofJson v) = .ok b) : type .boolean v = true := by
  rw [bool_ofJson h]
  rfl

theorem enum_variant {names : List (String × α)} {values : List String}
    (hvalues : names.map (·.1) = values) (h : variant names (ofJson v) = .ok a) :
    allOf [type .string, enum values] v = true := by
  obtain ⟨s, rfl, hs⟩ := variant_ofJson h
  have hmem : s ∈ values := hvalues ▸ List.mem_map.2 ⟨_, mem_of_lookup hs, rfl⟩
  simp [type, hasType, enum, hmem]

/-! ### Numbers -/

theorem integer_unsigned {bits : ℕ} {n : Fin (2 ^ bits)} (h : unsigned bits (ofJson v) = .ok n) :
    type .integer v = true := by
  rw [unsigned_ofJson h]
  rfl

theorem minimum_unsigned {bits : ℕ} {n : Fin (2 ^ bits)} {k : ℕ}
    (h : unsigned bits (ofJson v) = .ok n) (hk : k ≤ n.val) : minimum k v = true := by
  rw [unsigned_ofJson h]
  simpa [minimum] using hk

theorem maximum_unsigned {bits : ℕ} {n : Fin (2 ^ bits)} {k : ℕ}
    (h : unsigned bits (ofJson v) = .ok n) (hk : n.val ≤ k) : maximum k v = true := by
  rw [unsigned_ofJson h]
  simpa [maximum] using hk

/-- Rounding keeps what is at least two there. -/
theorem two_le_round53 {n : ℕ} (hn : 2 ≤ n) : 2 ≤ Json.round53 n := by
  unfold Json.round53
  split_ifs with hsmall
  · exact hn
  · have hlog : 53 ≤ Nat.log2 n := (Nat.le_log2 (by omega)).2 (not_lt.1 hsmall)
    have hunit : 2 ≤ 2 ^ (Nat.log2 n - 52) := by
      calc 2 = 2 ^ 1 := rfl
        _ ≤ 2 ^ (Nat.log2 n - 52) := Nat.pow_le_pow_right (by omega) (by omega)
    have hquotient : 1 ≤ n / 2 ^ (Nat.log2 n - 52) := by
      rw [Nat.one_le_div_iff (by positivity)]
      calc 2 ^ (Nat.log2 n - 52) ≤ 2 ^ Nat.log2 n := Nat.pow_le_pow_right (by omega) (by omega)
        _ ≤ n := Nat.log2_self_le (by omega)
    calc 2 ≤ 1 * 2 ^ (Nat.log2 n - 52) := by omega
      _ ≤ _ := Nat.mul_le_mul_right _ (by split_ifs <;> omega)

/-- The double of an integer is zero or one only where the integer is. -/
theorem sign_mul_round53 (n : ℤ) :
    n < 0 ∧ n.sign * Json.round53 n.natAbs < 0 ∨
      (n = 0 ∨ n = 1) ∧ n.sign * Json.round53 n.natAbs = n ∨
        2 ≤ n ∧ 2 ≤ n.sign * Json.round53 n.natAbs := by
  rcases lt_trichotomy n 0 with hn | rfl | hn
  · refine .inl ⟨hn, ?_⟩
    have hround : 0 < Json.round53 n.natAbs := by
      by_cases hone : n.natAbs = 1
      · rw [hone]
        decide
      · exact lt_of_lt_of_le Nat.two_pos (two_le_round53 (by omega))
    rw [Int.sign_eq_neg_one_of_neg hn]
    omega
  · exact .inr (.inl ⟨.inl rfl, rfl⟩)
  · by_cases hone : n = 1
    · subst hone
      exact .inr (.inl ⟨.inr rfl, rfl⟩)
    · have hround := two_le_round53 (show 2 ≤ n.natAbs by omega)
      rw [Int.sign_eq_one_of_pos hn]
      omega

theorem lt_ofInt {n k : ℤ} (hk : k = 0 ∨ k = 1) : (F64.ofInt n).lt k = decide (n < k) := by
  have hround := sign_mul_round53 n
  simp only [F64.ofInt, F64.lt, le_refl, if_true, Int.toNat_zero, pow_zero, mul_one]
  refine decide_eq_decide.2 ?_
  omega

theorem le_ofInt (n : ℤ) : (F64.ofInt n).le 1 = decide (n ≤ 1) := by
  have hround := sign_mul_round53 n
  simp only [F64.ofInt, F64.le, le_refl, if_true, Int.toNat_zero, pow_zero, mul_one]
  refine decide_eq_decide.2 ?_
  omega

theorem number_f64 {x : F64} (h : f64 (ofJson v) = .ok x) : type .number v = true := by
  rcases f64_ofJson h with ⟨n, rfl, -⟩ | ⟨mantissa, exponent, rfl, -⟩
  · rfl
  · rfl

theorem lt_finite (mantissa exponent n : ℤ) :
    (F64.finite mantissa exponent).lt n = !atMost n mantissa exponent := by
  by_cases h : 0 ≤ exponent
  · simp only [F64.lt, atMost, if_pos h]
    rw [← decide_not, decide_eq_decide, not_le]
  · simp only [F64.lt, atMost, if_neg h]
    rw [← decide_not, decide_eq_decide, not_le]

theorem minimum_f64 {x : F64} {k : ℤ} (hk : k = 0 ∨ k = 1) (h : f64 (ofJson v) = .ok x)
    (hx : x.lt k = false) : minimum k v = true := by
  rcases f64_ofJson h with ⟨n, rfl, rfl⟩ | ⟨mantissa, exponent, rfl, rfl⟩
  · rw [lt_ofInt hk, decide_eq_false_iff_not, not_lt] at hx
    exact decide_eq_true hx
  · rw [lt_finite, Bool.not_eq_false'] at hx
    exact hx

theorem maximum_one {x : F64} (h : f64 (ofJson v) = .ok x) (hx : x.le 1 = true) :
    maximum 1 v = true := by
  rcases f64_ofJson h with ⟨n, rfl, rfl⟩ | ⟨mantissa, exponent, rfl, rfl⟩
  · rw [le_ofInt] at hx
    exact hx
  · exact hx

/-! ### Collections -/

theorem array_sequence {item : Decoder α} {as : List α} (h : sequence item (ofJson v) = .ok as)
    (hv : v ≠ .null) : type .array v = true := by
  rcases sequence_ofJson h with ⟨rfl, -⟩ | ⟨vs, rfl, -⟩
  · exact absurd rfl hv
  · rfl

/-- Every element satisfies what its decoded form implies. -/
theorem items_sequence {item : Decoder α} {as : List α} {s : Schema}
    (h : sequence item (ofJson v) = .ok as)
    (hs : ∀ x ∈ elements v, ∀ a ∈ as, item (ofJson x) = .ok a → s x = true) :
    items s v = true := by
  rcases sequence_ofJson h with ⟨rfl, -⟩ | ⟨vs, rfl, hvs⟩
  · rfl
  · refine List.all_eq_true.2 fun x hx => ?_
    obtain ⟨i, hi, rfl⟩ := List.mem_iff_getElem.1 hx
    have hlength := hvs.length_eq
    exact hs _ hx _ (List.getElem_mem (hlength ▸ hi)) (hvs.get hi (hlength ▸ hi))

theorem minItems_sequence {item : Decoder α} {as : List α}
    (h : sequence item (ofJson v) = .ok as) (has : as ≠ []) : minItems 1 v = true := by
  rcases sequence_ofJson h with ⟨rfl, -⟩ | ⟨vs, rfl, hvs⟩
  · rfl
  · refine decide_eq_true ?_
    rw [hvs.length_eq]
    exact List.length_pos_iff.2 has

end Serde
