import EraseMe.Identity.ProfileJson
import EraseMe.Library.JsonSpelling

/-!
# What the normaliser makes of a text

The normaliser goes over a text octet by octet.  A string whose text is not UTF-8, or in which a
surrogate stands alone, comes out as a string in which U+FFFD is written instead
(`normalizeJsonString_loose`).  So a JSON text of any strings becomes a strict text of the same value
(`Normalizes.spells`).
-/

namespace EraseMe.Identity.Secrets

open Json

/-! ### Characters of several octets -/

/-- The width of a character of several octets. -/
theorem validUtf8Width_of_next {b : UInt8} {s : Bytes} {c : Char} {n : ℕ} (hb : ¬ b < 0x80)
    (h : Utf8.next (b :: s) = (some c, n)) : validUtf8Width (b :: s) = some n := by
  have hle (x y : UInt8) : x ≤ y ↔ x.toNat ≤ y.toNat := UInt8.le_iff_toNat_le
  rw [Utf8.next.eq_def] at h
  simp only [if_neg hb] at h
  split_ifs at h with h2 h3 h4
  · rcases s with _ | ⟨b₁, s⟩
    · cases h
    simp only at h
    split_ifs at h with h5
    · cases h
      unfold validUtf8Width
      have hcont : isContinuation (some b₁) = true := h5
      simp only [Nat.sub_self, List.getElem?_cons_zero, hcont, and_true]
      rw [if_pos h2]
    · cases h
  · rcases s with _ | ⟨b₁, _ | ⟨b₂, s⟩⟩
    · cases h
    · cases h
    simp only at h
    split_ifs at h with h5 h6
    · cases h
      unfold validUtf8Width
      have hcont : isContinuation (some b₂) = true := h6
      simp only [Nat.sub_self, List.getElem?_cons_zero, List.getElem?_cons_succ, hcont, and_true,
        Nat.reduceSub]
      have hnot : ¬ (0xc2 ≤ b ∧ b ≤ 0xdf ∧ isContinuation (some b₁) = true) := by
        intro h'
        exact h2 ⟨h'.1, h'.2.1⟩
      rw [if_neg hnot]
      by_cases h7 : b = 0xe0
      · subst h7
        have hsecond : inRange 0xa0 0xbf (some b₁) = true := h5
        rw [if_pos ⟨rfl, hsecond⟩]
      · by_cases h8 : b = 0xed
        · subst h8
          have hsecond : inRange 0x80 0x9f (some b₁) = true := h5
          rw [if_neg (fun h => h7 h.1), if_pos ⟨rfl, hsecond⟩]
        · have h9 : isContinuation (some b₁) = true := by
            unfold Utf8.secondRange at h5
            rw [if_neg h7, if_neg h8, if_neg, if_neg] at h5
            · exact h5
            · rintro rfl
              exact absurd h3.2 (by decide)
            · rintro rfl
              exact absurd h3.2 (by decide)
          have h10 : 0xe1 ≤ b ∧ b ≤ 0xec ∨ 0xee ≤ b ∧ b ≤ 0xef := by
            simp only [hle, ← UInt8.toNat_inj, UInt8.reduceToNat] at h3 h7 h8 ⊢
            omega
          rw [if_neg (fun h => h7 h.1), if_neg (fun h => h8 h.1), if_pos ⟨h10, h9⟩]
    · cases h
    · cases h
  · rcases s with _ | ⟨b₁, _ | ⟨b₂, _ | ⟨b₃, s⟩⟩⟩
    · cases h
    · cases h
    · cases h
    simp only at h
    split_ifs at h with h5 h6 h7
    · cases h
      unfold validUtf8Width
      have hcont₂ : isContinuation (some b₂) = true := h6
      have hcont₃ : isContinuation (some b₃) = true := h7
      simp only [Nat.sub_self, List.getElem?_cons_zero, List.getElem?_cons_succ, hcont₂, hcont₃,
        and_true, Nat.reduceSub]
      have hlow : ∀ a : UInt8, a < 0xf0 → ¬ a = b := by
        rintro a ha rfl
        exact absurd h4.1 (UInt8.not_le.2 ha)
      have h2' : ¬ (0xc2 ≤ b ∧ b ≤ 0xdf ∧ isContinuation (some b₁) = true) :=
        fun h => h2 ⟨h.1, h.2.1⟩
      have h3' : ¬ ((0xe1 ≤ b ∧ b ≤ 0xec ∨ 0xee ≤ b ∧ b ≤ 0xef) ∧
          isContinuation (some b₁) = true) := by
        rintro ⟨h, -⟩
        apply h3
        simp only [hle, UInt8.reduceToNat] at h ⊢
        omega
      rw [if_neg h2', if_neg (fun h => hlow 0xe0 (by decide) h.1.symm),
        if_neg (fun h => hlow 0xed (by decide) h.1.symm), if_neg h3']
      by_cases h8 : b = 0xf0
      · subst h8
        have hsecond : inRange 0x90 0xbf (some b₁) = true := h5
        rw [if_pos ⟨rfl, hsecond⟩]
      · by_cases h9 : b = 0xf4
        · subst h9
          have hsecond : inRange 0x80 0x8f (some b₁) = true := h5
          rw [if_neg (fun h => h8 h.1), if_pos ⟨rfl, hsecond⟩]
        · have h10 : isContinuation (some b₁) = true := by
            unfold Utf8.secondRange at h5
            rw [if_neg (fun h => hlow 0xe0 (by decide) h.symm),
              if_neg (fun h => hlow 0xed (by decide) h.symm), if_neg h8, if_neg h9] at h5
            exact h5
          have h11 : 0xf1 ≤ b ∧ b ≤ 0xf3 := by
            simp only [hle, ← UInt8.toNat_inj, UInt8.reduceToNat] at h4 h8 h9 ⊢
            omega
          rw [if_neg (fun h => h8 h.1), if_neg (fun h => h9 h.1), if_pos ⟨h11.1, h11.2, h10⟩]
    · cases h
    · cases h
    · cases h
  · cases h

/-- The width of a character of a string that stands for itself. -/
theorem validUtf8Width_encode {c : Char} {b : UInt8} {tail : Bytes}
    (h : String.utf8EncodeChar c = b :: tail) (hb : ¬ b < 0x80) (s : Bytes) :
    validUtf8Width (b :: (tail ++ s)) = some (tail.length + 1) := by
  have hnext := Utf8.next_encode c s
  rw [h, List.cons_append, List.length_cons] at hnext
  exact validUtf8Width_of_next hb hnext

theorem inRange_eq_true {low high : UInt8} {o : Option UInt8} (h : inRange low high o = true) :
    ∃ b, o = some b ∧ Utf8.inRange (low, high) b = true := by
  cases o with
  | none => cases h
  | some b => exact ⟨b, rfl, h⟩

theorem isContinuation_eq_true {o : Option UInt8} (h : isContinuation o = true) :
    ∃ b, o = some b ∧ Utf8.isTail b = true := inRange_eq_true h

/-- Where the second octet may be any continuation. -/
theorem secondRange_of_ne {b : UInt8} (h : ∀ a ∈ [0xe0, 0xed, 0xf0, 0xf4], b ≠ a) :
    Utf8.secondRange b = (0x80, 0xbf) := by
  simp only [List.forall_mem_cons, List.not_mem_nil, false_implies, implies_true, and_true] at h
  rw [Utf8.secondRange, if_neg h.1, if_neg h.2.1, if_neg h.2.2.1, if_neg h.2.2.2]

theorem exists_next_three {b : UInt8} {s : Bytes} {low high : UInt8} (hb : 0xe0 ≤ b ∧ b ≤ 0xef)
    (hrange : Utf8.secondRange b = (low, high)) (hx : inRange low high s[0]? = true)
    (hy : isContinuation s[1]? = true) : ∃ c, Utf8.next (b :: s) = (some c, 3) := by
  obtain ⟨x, hx', hsecond⟩ := inRange_eq_true hx
  obtain ⟨y, hy', hthird⟩ := isContinuation_eq_true hy
  rcases s with _ | ⟨x', _ | ⟨y', s⟩⟩
  · cases hx'
  · cases hy'
  cases hx'
  cases hy'
  rw [← hrange] at hsecond
  rw [Utf8.next]
  simp only [UInt8.le_iff_toNat_le, UInt8.lt_iff_toNat_lt, UInt8.reduceToNat] at hb ⊢
  rw [if_neg (by omega), if_neg (by omega), if_pos hb, if_neg (by simp [hsecond]),
    if_neg (by simp [hthird])]
  exact ⟨_, rfl⟩

theorem exists_next_four {b : UInt8} {s : Bytes} {low high : UInt8} (hb : 0xf0 ≤ b ∧ b ≤ 0xf4)
    (hrange : Utf8.secondRange b = (low, high)) (hx : inRange low high s[0]? = true)
    (hy : isContinuation s[1]? = true) (hz : isContinuation s[2]? = true) :
    ∃ c, Utf8.next (b :: s) = (some c, 4) := by
  obtain ⟨x, hx', hsecond⟩ := inRange_eq_true hx
  obtain ⟨y, hy', hthird⟩ := isContinuation_eq_true hy
  obtain ⟨z, hz', hfourth⟩ := isContinuation_eq_true hz
  rcases s with _ | ⟨x', _ | ⟨y', _ | ⟨z', s⟩⟩⟩
  · cases hx'
  · cases hy'
  · cases hz'
  cases hx'
  cases hy'
  cases hz'
  rw [← hrange] at hsecond
  rw [Utf8.next]
  simp only [UInt8.le_iff_toNat_le, UInt8.lt_iff_toNat_lt, UInt8.reduceToNat] at hb ⊢
  rw [if_neg (by omega), if_neg (by omega), if_neg (by omega), if_pos hb,
    if_neg (by simp [hsecond]), if_neg (by simp [hthird]), if_neg (by simp [hfourth])]
  exact ⟨_, rfl⟩

/-- There is a width only where a character starts. -/
theorem exists_next_of_validUtf8Width {b : UInt8} {s : Bytes} {n : ℕ}
    (h : validUtf8Width (b :: s) = some n) : ∃ c, Utf8.next (b :: s) = (some c, n) := by
  have hle (x y : UInt8) : x ≤ y ↔ x.toNat ≤ y.toNat := UInt8.le_iff_toNat_le
  unfold validUtf8Width at h
  simp only at h
  split_ifs at h with h1 h2 h3 h4 h5 h6 h7
  all_goals cases h
  · obtain ⟨x, hx, htail⟩ := isContinuation_eq_true h1.2.2
    rcases s with _ | ⟨x', s⟩
    · cases hx
    cases hx
    rw [Utf8.next]
    simp only [hle, UInt8.lt_iff_toNat_lt, UInt8.reduceToNat] at h1 ⊢
    rw [if_neg (by omega), if_pos ⟨h1.1, h1.2.1⟩, if_pos htail]
    exact ⟨_, rfl⟩
  · obtain ⟨rfl, hx, hy⟩ := h2
    exact exists_next_three (by decide) rfl hx hy
  · obtain ⟨rfl, hx, hy⟩ := h3
    exact exists_next_three (by decide) rfl hx hy
  · obtain ⟨hb, hx, hy⟩ := h4
    simp only [hle, UInt8.reduceToNat] at hb
    refine exists_next_three ?_ (secondRange_of_ne ?_) hx hy
    · simp only [hle, UInt8.reduceToNat]
      omega
    · simp only [List.forall_mem_cons, List.not_mem_nil, false_implies, implies_true, and_true,
        ne_eq, ← UInt8.toNat_inj, UInt8.reduceToNat]
      omega
  · obtain ⟨rfl, hx, hy, hz⟩ := h5
    exact exists_next_four (by decide) rfl hx hy hz
  · obtain ⟨rfl, hx, hy, hz⟩ := h6
    exact exists_next_four (by decide) rfl hx hy hz
  · obtain ⟨hlow, hhigh, hx, hy, hz⟩ := h7
    simp only [hle, UInt8.reduceToNat] at hlow hhigh
    refine exists_next_four ?_ (secondRange_of_ne ?_) hx hy hz
    · simp only [hle, UInt8.reduceToNat]
      omega
    · simp only [List.forall_mem_cons, List.not_mem_nil, false_implies, implies_true, and_true,
        ne_eq, ← UInt8.toNat_inj, UInt8.reduceToNat]
      omega

/-- The quotation mark after a string is no part of a character. -/
theorem validUtf8Width_append (b : UInt8) (s r : Bytes) :
    validUtf8Width (b :: (s ++ 34 :: r)) = validUtf8Width (b :: s) := by
  have hquote : isContinuation (some 34) = false := rfl
  have hrange {low high : UInt8} (h : 34 < low) : inRange low high (some 34) = false := by
    rw [inRange, decide_eq_false_iff_not]
    exact fun hle => absurd hle.1 (UInt8.not_le.2 h)
  have hnone : isContinuation none = false := rfl
  have hnone' {low high : UInt8} : inRange low high none = false := rfl
  rcases s with _ | ⟨x, _ | ⟨y, _ | ⟨z, s⟩⟩⟩
  · simp [validUtf8Width, hquote, hrange, hnone, hnone']
  · simp [validUtf8Width, hquote, hnone]
  · simp [validUtf8Width, hquote, hnone]
  · rfl

/-! ### Strings -/

theorem simpleEscape_of_short {e : UInt8} {c : Char} (h : shortEscape e = some c) :
    simpleEscape e = true ∧ e ≠ 117 := by
  unfold shortEscape at h
  split_ifs at h with h1 h2 h3 h4 h5 h6 h7 h8
  · exact h1 ▸ ⟨rfl, by decide⟩
  · exact h2 ▸ ⟨rfl, by decide⟩
  · exact h3 ▸ ⟨rfl, by decide⟩
  · exact h4 ▸ ⟨rfl, by decide⟩
  · exact h5 ▸ ⟨rfl, by decide⟩
  · exact h6 ▸ ⟨rfl, by decide⟩
  · exact h7 ▸ ⟨rfl, by decide⟩
  · exact h8 ▸ ⟨rfl, by decide⟩

/-- A character is no surrogate. -/
theorem not_surrogate (c : Char) : c.toNat < 55296 ∨ 57344 ≤ c.toNat := by
  rcases c.valid with h | ⟨h, -⟩
  · exact Or.inl h
  · exact Or.inr h

/-- Every character of a JSON string is copied. -/
theorem normalizeJsonString_char {c : Char} {t : Bytes} (h : CharText c t) (fuel : ℕ) (s : Bytes) :
    normalizeJsonString (fuel + 1) (t ++ s) =
      (normalizeJsonString fuel s).map fun r => (t ++ r.1, r.2) := by
  cases h with
  | plain hcontrol hquote hbackslash =>
    obtain ⟨b, tail, hb, hle, h34, h92, hascii⟩ := encode_plain hcontrol hquote hbackslash
    rw [hb, List.cons_append, normalizeJsonString.eq_def]
    simp only [if_neg h34, if_neg h92, if_neg (UInt8.not_lt.2 hle)]
    by_cases hlt : b < 0x80
    · rw [if_pos hlt, hascii hlt]
      rfl
    · rw [if_neg hlt, validUtf8Width_encode hb hlt]
      simp only [List.take_succ_cons, List.take_left, List.drop_succ_cons, List.drop_left]
  | @short e h =>
    obtain ⟨hsimple, h117⟩ := simpleEscape_of_short h
    rw [List.cons_append, List.cons_append, List.nil_append, normalizeJsonString.eq_def]
    simp only [if_neg (show ¬ (92 : UInt8) = 34 by decide), if_pos, if_neg h117, hsimple]
  | @unit a b d e h =>
    have hquad : hexQuad (a :: b :: d :: e :: s) = some c.toNat := h
    have hvalid := not_surrogate c
    rw [List.cons_append, List.cons_append, normalizeJsonString.eq_def]
    simp only [if_neg (show ¬ (92 : UInt8) = 34 by decide), if_pos, List.cons_append,
      List.nil_append, hquad]
    rw [if_neg (by omega), if_neg (by omega)]
    rfl
  | @pair a b d e a' b' d' e' high low hhigh hlow hc hhigh' hlow' =>
    have hmax : c.toNat < 1114112 := by
      rcases c.valid with h | ⟨-, h⟩
      · exact h.trans (by decide)
      · exact h
    have hquad : hexQuad (a :: b :: d :: e :: 92 :: 117 :: a' :: b' :: d' :: e' :: s) = some high :=
      hhigh
    have hlow : (lowSurrogate (92 :: 117 :: a' :: b' :: d' :: e' :: s)).isSome = true := by
      have hquad' : hexQuad (a' :: b' :: d' :: e' :: s) = some low := hlow
      rw [lowSurrogate, if_pos ⟨rfl, rfl⟩, hquad', Option.filter_some, if_pos]
      · rfl
      · simp only [decide_eq_true_eq]
        omega
    rw [List.cons_append, List.cons_append, normalizeJsonString.eq_def]
    simp only [if_neg (show ¬ (92 : UInt8) = 34 by decide), if_pos, List.cons_append,
      List.nil_append, hquad]
    rw [if_pos (by omega)]
    simp only [List.drop_succ_cons, List.drop_zero, hlow, if_true]
    rfl

theorem length_pos_of_char {c : Char} {t : Bytes} (h : CharText c t) : 0 < t.length := by
  cases h with
  | plain hcontrol hquote hbackslash =>
    obtain ⟨b, tail, hb, -⟩ := encode_plain hcontrol hquote hbackslash
    rw [hb]
    simp
  | _ => simp

/-! ### Strings that need not be UTF-8 -/

theorem lowSurrogate_of_ne {b : UInt8} (hb : b ≠ 92) (s : Bytes) :
    lowSurrogate (b :: s) = none := by
  cases s with
  | nil => rfl
  | cons e s => exact if_neg fun h => hb h.1

/-- The partner of a surrogate is in the same string. -/
theorem lowSurrogate_append {cs : List Char} {t : Bytes} (h : LooseChars cs t) (s : Bytes) :
    lowSurrogate (t ++ 34 :: s) = lowSurrogate t := by
  cases h with
  | nil => exact lowSurrogate_of_ne (by decide) s
  | @char c t cs s' hchar hs =>
    cases hchar with
    | plain hcontrol hquote hbackslash =>
      obtain ⟨b, tail, hb, -, -, h92, -⟩ := encode_plain hcontrol hquote hbackslash
      rw [hb, List.cons_append, List.cons_append, lowSurrogate_of_ne h92, lowSurrogate_of_ne h92]
    | @short e he =>
      have h117 := (simpleEscape_of_short he).2
      simp [lowSurrogate, h117]
    | unit => rfl
    | pair => rfl
  | octet hb =>
    have h92 : ∀ b : UInt8, ¬ b < 0x80 → b ≠ 92 := by
      rintro b hb rfl
      exact hb (by decide)
    rw [List.cons_append, lowSurrogate_of_ne (h92 _ hb), lowSurrogate_of_ne (h92 _ hb)]
  | surrogate => rfl

/-- A string comes out as one that is read strictly, and its characters are the same. -/
theorem normalizeJsonString_loose {cs : List Char} {t : Bytes} (h : LooseChars cs t) :
    ∃ t', CharsText cs t' ∧ ∀ s fuel, t.length < fuel →
      normalizeJsonString fuel (t ++ 34 :: s) = some (t' ++ [34], s) := by
  induction h with
  | nil =>
    refine ⟨[], .nil, fun s fuel hfuel => ?_⟩
    obtain ⟨fuel, rfl⟩ := Nat.exists_eq_succ_of_ne_zero (Nat.ne_of_gt hfuel)
    rfl
  | @char c t cs rest hchar _ ih =>
    obtain ⟨t', ht', hrun⟩ := ih
    refine ⟨t ++ t', .cons hchar ht', fun s fuel hfuel => ?_⟩
    obtain ⟨fuel, rfl⟩ := Nat.exists_eq_succ_of_ne_zero (Nat.ne_of_gt (Nat.zero_lt_of_lt hfuel))
    have hpos := length_pos_of_char hchar
    rw [List.length_append] at hfuel
    rw [List.append_assoc, normalizeJsonString_char hchar, hrun s fuel (by omega)]
    simp
  | @octet b cs rest hb hnext hrest ih =>
    obtain ⟨t', ht', hrun⟩ := ih
    have hmark : CharText Utf8.replacement [0xef, 0xbf, 0xbd] :=
      .plain (by decide) (by decide) (by decide)
    refine ⟨_, .cons hmark ht', fun s fuel hfuel => ?_⟩
    obtain ⟨fuel, rfl⟩ := Nat.exists_eq_succ_of_ne_zero (Nat.ne_of_gt (Nat.zero_lt_of_lt hfuel))
    have hne (m : UInt8) (hm : m < 0x80) : b ≠ m := by
      rintro rfl
      exact hb hm
    have hcontrol : ¬ b < 0x20 := fun h => hb (UInt8.lt_trans h (by decide))
    have hwidth : validUtf8Width (b :: (rest ++ 34 :: s)) = none := by
      rw [validUtf8Width_append]
      cases hw : validUtf8Width (b :: rest) with
      | none => rfl
      | some n =>
        obtain ⟨c, hc⟩ := exists_next_of_validUtf8Width hw
        rw [hc] at hnext
        cases hnext
    rw [List.cons_append, normalizeJsonString.eq_def]
    simp only [if_neg (hne 34 (by decide)), if_neg (hne 92 (by decide)), if_neg hcontrol,
      if_neg hb, hwidth, hrun s fuel (by simpa using hfuel)]
    simp
  | @surrogate a b d e n cs rest hquad hn halone hrest ih =>
    obtain ⟨t', ht', hrun⟩ := ih
    have hmark : CharText Utf8.replacement unpaired := .unit (by decide)
    refine ⟨_, .cons hmark ht', fun s fuel hfuel => ?_⟩
    obtain ⟨fuel, rfl⟩ := Nat.exists_eq_succ_of_ne_zero (Nat.ne_of_gt (Nat.zero_lt_of_lt hfuel))
    have hquad' : hexQuad (a :: b :: d :: e :: (rest ++ 34 :: s)) = some n := hquad
    have hrest' := hrun s fuel (by simp at hfuel; omega)
    rw [List.cons_append, List.cons_append, normalizeJsonString.eq_def]
    simp only [if_neg (show ¬ (92 : UInt8) = 34 by decide), if_pos, List.cons_append, hquad',
      List.drop_succ_cons, List.drop_zero, hrest']
    by_cases hhigh : n < 56320
    · have hlow : lowSurrogate (rest ++ 34 :: s) = none := by
        rw [lowSurrogate_append hrest, halone hhigh]
      rw [if_pos (by omega), hlow]
      simp
    · rw [if_neg (by omega), if_pos (by omega)]
      simp

/-! ### The walk over the text -/

/-- With enough fuel. -/
def Normalizes (depth : ℕ) (s out : Bytes) : Prop :=
  ∀ fuel, s.length ≤ fuel → normalizeFrom fuel depth s = some out

section Normalizes

variable {depth : ℕ} {s out : Bytes}

theorem normalizes_nil : Normalizes depth [] [] := by
  intro fuel _
  cases fuel <;> rfl

/-- One octet outside strings that is no bracket. -/
theorem Normalizes.octet {b : UInt8} (h : Normalizes depth s out)
    (hb : b ≠ 34 ∧ b ≠ 123 ∧ b ≠ 91 ∧ b ≠ 125 ∧ b ≠ 93) : Normalizes depth (b :: s) (b :: out) := by
  intro fuel hfuel
  obtain ⟨h34, h123, h91, h125, h93⟩ := hb
  obtain ⟨fuel, rfl⟩ : ∃ n, fuel = n + 1 := ⟨fuel - 1, by simp at hfuel; omega⟩
  rw [normalizeFrom, if_neg h34, if_neg (by simp [h123, h91]), if_neg (by simp [h125, h93]),
    h fuel (by simpa using hfuel), Option.map_some]

theorem Normalizes.octets {t : Bytes} (h : Normalizes depth s out)
    (ht : ∀ b ∈ t, b ≠ 34 ∧ b ≠ 123 ∧ b ≠ 91 ∧ b ≠ 125 ∧ b ≠ 93) :
    Normalizes depth (t ++ s) (t ++ out) := by
  induction t with
  | nil => exact h
  | cons b t ih =>
    exact Normalizes.octet (ih fun a ha => ht a (List.mem_cons_of_mem _ ha))
      (ht b List.mem_cons_self)

theorem Normalizes.blank {w : Bytes} (h : Normalizes depth s out) (hw : Blank w) :
    Normalizes depth (w ++ s) (w ++ out) := by
  refine h.octets fun b hb => ?_
  have hblank := hw b hb
  rw [isBlank, decide_eq_true_eq] at hblank
  rcases hblank with rfl | rfl | rfl | rfl <;> decide

theorem Normalizes.string {text : String} {t : Bytes} (ht : LooseText text t) :
    ∃ t', StringText text t' ∧ ∀ {depth : ℕ} {s out : Bytes}, Normalizes depth s out →
      Normalizes depth (t ++ s) (t' ++ out) := by
  obtain ⟨body, hbody, rfl⟩ := ht
  obtain ⟨body', hbody', hrun⟩ := normalizeJsonString_loose hbody
  refine ⟨_, ⟨body', hbody', rfl⟩, fun {depth s out} h fuel hfuel => ?_⟩
  obtain ⟨fuel, rfl⟩ : ∃ n, fuel = n + 1 := ⟨fuel - 1, by simp at hfuel; omega⟩
  rw [List.cons_append, List.append_assoc, List.singleton_append, normalizeFrom, if_pos rfl,
    hrun s _ (by simp)]
  simp only
  rw [h fuel (by simp at hfuel; omega)]
  simp

theorem Normalizes.opening {b : UInt8} (h : Normalizes (depth + 1) s out) (hb : b = 123 ∨ b = 91)
    (hdepth : depth + 1 ≤ goMaxJsonNestingDepth) : Normalizes depth (b :: s) (b :: out) := by
  intro fuel hfuel
  obtain ⟨fuel, rfl⟩ : ∃ n, fuel = n + 1 := ⟨fuel - 1, by simp at hfuel; omega⟩
  have h34 : b ≠ 34 := by rcases hb with rfl | rfl <;> decide
  rw [normalizeFrom, if_neg h34, if_pos hb, if_neg (not_lt.2 hdepth),
    h fuel (by simpa using hfuel), Option.map_some]

theorem Normalizes.closing {b : UInt8} (h : Normalizes depth s out) (hb : b = 125 ∨ b = 93) :
    Normalizes (depth + 1) (b :: s) (b :: out) := by
  intro fuel hfuel
  obtain ⟨fuel, rfl⟩ : ∃ n, fuel = n + 1 := ⟨fuel - 1, by simp at hfuel; omega⟩
  have h34 : b ≠ 34 := by rcases hb with rfl | rfl <;> decide
  have hopening : ¬ (b = 123 ∨ b = 91) := by rcases hb with rfl | rfl <;> decide
  rw [normalizeFrom, if_neg h34, if_neg hopening, if_pos hb, Nat.add_sub_cancel,
    h fuel (by simpa using hfuel), Option.map_some]

end Normalizes

/-- The octets of numbers are none of the marks. -/
theorem numberText_inert {t : Bytes} (h : NumberText t) :
    ∀ b ∈ t, b ≠ 34 ∧ b ≠ 123 ∧ b ≠ 91 ∧ b ≠ 125 ∧ b ≠ 93 := by
  intro b hb
  have hoctet := isNumberOctet_of_mem h hb
  have hne {a : UInt8} (ha : isNumberOctet a = false) : b ≠ a := by
    rintro rfl
    rw [ha] at hoctet
    cases hoctet
  exact ⟨hne rfl, hne rfl, hne rfl, hne rfl, hne rfl⟩

section Spells

variable {number : Octets → ℤ ⊕ ℤ × ℤ}

mutual

/-- A JSON text of any strings comes out as a strict text of the same value. -/
theorem Normalizes.spells : ∀ (v : Json) {t : Bytes}, Spells LooseText number v t →
    ∃ t', Spells StringText number v t' ∧ ∀ {depth : ℕ} {s out : Bytes},
      depth + v.depth ≤ goMaxJsonNestingDepth → Normalizes depth s out →
        Normalizes depth (t ++ s) (t' ++ out)
  | .null, t, ht => by
      simp only [Spells] at ht ⊢
      subst ht
      exact ⟨_, rfl, fun _ h => h.octets (by decide)⟩
  | .bool b, t, ht => by
      simp only [Spells] at ht ⊢
      subst ht
      cases b
      · exact ⟨_, rfl, fun _ h => h.octets (by decide)⟩
      · exact ⟨_, rfl, fun _ h => h.octets (by decide)⟩
  | .int n, t, ht => by
      simp only [Spells] at ht ⊢
      exact ⟨t, ht, fun _ h => h.octets (numberText_inert ht.1)⟩
  | .float mantissa exponent, t, ht => by
      simp only [Spells] at ht ⊢
      exact ⟨t, ht, fun _ h => h.octets (numberText_inert ht.1)⟩
  | .string text, t, ht => by
      simp only [Spells] at ht ⊢
      obtain ⟨t', ht', hrun⟩ := Normalizes.string ht
      exact ⟨t', ht', fun _ h => hrun h⟩
  | .array items, t, ht => by
      simp only [Spells] at ht ⊢
      obtain ⟨inner, hinner, rfl⟩ := ht
      obtain ⟨inner', hinner', hrun⟩ := Normalizes.spellsItems items hinner
      refine ⟨_, ⟨inner', hinner', rfl⟩, fun {depth s out} hdepth h => ?_⟩
      rw [Json.depth] at hdepth
      have hrest := hrun (by omega) (h.closing (b := 93) (Or.inr rfl))
      simpa using hrest.opening (b := 91) (Or.inr rfl) (by omega)
  | .object fields, t, ht => by
      simp only [Spells] at ht ⊢
      obtain ⟨inner, hinner, rfl⟩ := ht
      obtain ⟨inner', hinner', hrun⟩ := Normalizes.spellsMembers fields hinner
      refine ⟨_, ⟨inner', hinner', rfl⟩, fun {depth s out} hdepth h => ?_⟩
      rw [Json.depth] at hdepth
      have hrest := hrun (by omega) (h.closing (b := 125) (Or.inl rfl))
      simpa using hrest.opening (b := 123) (Or.inl rfl) (by omega)

theorem Normalizes.spellsItems : ∀ (items : List Json) {t : Bytes},
    SpellsItems LooseText number items t → ∃ t', SpellsItems StringText number items t' ∧
      ∀ {depth : ℕ} {s out : Bytes}, depth + depthItems items ≤ goMaxJsonNestingDepth →
        Normalizes depth s out → Normalizes depth (t ++ s) (t' ++ out)
  | [], t, ht => by
      simp only [SpellsItems] at ht ⊢
      exact ⟨t, ht, fun _ h => h.blank ht⟩
  | v :: items, t, ht => by
      rw [SpellsItems] at ht
      obtain ⟨w, text, w', hw, htext, hw', hcases⟩ := ht
      obtain ⟨text', htext', hvalue⟩ := Normalizes.spells v htext
      rcases hcases with ⟨hnil, rfl⟩ | ⟨hne, rest, hrest, rfl⟩
      · refine ⟨w ++ (text' ++ w'), ?_, fun {depth s out} hdepth h => ?_⟩
        · rw [SpellsItems]
          exact ⟨w, text', w', hw, htext', hw', Or.inl ⟨hnil, rfl⟩⟩
        · rw [depthItems] at hdepth
          simpa using (hvalue (by omega) (h.blank hw')).blank hw
      · obtain ⟨rest', hrest', hmore⟩ := Normalizes.spellsItems items hrest
        refine ⟨w ++ (text' ++ (w' ++ 44 :: rest')), ?_, fun {depth s out} hdepth h => ?_⟩
        · rw [SpellsItems]
          exact ⟨w, text', w', hw, htext', hw', Or.inr ⟨hne, rest', hrest', rfl⟩⟩
        · rw [depthItems] at hdepth
          have hcomma := ((hmore (by omega) h).octet (b := 44) (by decide)).blank hw'
          simpa using (hvalue (by omega) hcomma).blank hw

theorem Normalizes.spellsMembers : ∀ (fields : List (String × Json)) {t : Bytes},
    SpellsMembers LooseText number fields t → ∃ t', SpellsMembers StringText number fields t' ∧
      ∀ {depth : ℕ} {s out : Bytes}, depth + depthFields fields ≤ goMaxJsonNestingDepth →
        Normalizes depth s out → Normalizes depth (t ++ s) (t' ++ out)
  | [], t, ht => by
      simp only [SpellsMembers] at ht ⊢
      exact ⟨t, ht, fun _ h => h.blank ht⟩
  | (key, v) :: fields, t, ht => by
      rw [SpellsMembers] at ht
      obtain ⟨w, k, w₁, w₂, text, w', hw, hk, hw₁, hw₂, htext, hw', hcases⟩ := ht
      obtain ⟨k', hk', hkey⟩ := Normalizes.string hk
      obtain ⟨text', htext', hvalue⟩ := Normalizes.spells v htext
      rcases hcases with ⟨hnil, rfl⟩ | ⟨hne, rest, hrest, rfl⟩
      · refine ⟨w ++ (k' ++ (w₁ ++ 58 :: (w₂ ++ (text' ++ w')))), ?_,
          fun {depth s out} hdepth h => ?_⟩
        · rw [SpellsMembers]
          exact ⟨w, k', w₁, w₂, text', w', hw, hk', hw₁, hw₂, htext', hw', Or.inl ⟨hnil, rfl⟩⟩
        · rw [depthFields] at hdepth
          have hv := (hvalue (by omega) (h.blank hw')).blank hw₂
          simpa using (hkey ((hv.octet (b := 58) (by decide)).blank hw₁)).blank hw
      · obtain ⟨rest', hrest', hmore⟩ := Normalizes.spellsMembers fields hrest
        refine ⟨w ++ (k' ++ (w₁ ++ 58 :: (w₂ ++ (text' ++ (w' ++ 44 :: rest'))))), ?_,
          fun {depth s out} hdepth h => ?_⟩
        · rw [SpellsMembers]
          exact ⟨w, k', w₁, w₂, text', w', hw, hk', hw₁, hw₂, htext', hw',
            Or.inr ⟨hne, rest', hrest', rfl⟩⟩
        · rw [depthFields] at hdepth
          have hcomma := ((hmore (by omega) h).octet (b := 44) (by decide)).blank hw'
          have hv := (hvalue (by omega) hcomma).blank hw₂
          simpa using (hkey ((hv.octet (b := 58) (by decide)).blank hw₁)).blank hw

end

theorem normalizeGoJson_document {v : Json} {s : Bytes} (h : SpellsDocument LooseText number v s)
    (hdepth : v.depth ≤ goMaxJsonNestingDepth) :
    ∃ s', SpellsDocument StringText number v s' ∧ normalizeGoJson s = some s' := by
  obtain ⟨w, text, w', hw, htext, hw', rfl⟩ := h
  obtain ⟨text', htext', hrun⟩ := Normalizes.spells v htext
  have hend : Normalizes 0 w' w' := by simpa using normalizes_nil.blank hw'
  exact ⟨_, ⟨w, text', w', hw, htext', hw', rfl⟩, (hrun (by omega) hend).blank hw _ le_rfl⟩

end Spells

end EraseMe.Identity.Secrets
