import EraseMe.Library.Octets

/-!
# Octets that start with a text

The octets of a text read back as the text, whatever follows them: strictly (`decode_encode_append`)
and with ill-formed parts replaced (`lossy_encode_append`).  Octets cut off a text are a text and a
part of a character (`exists_take_encode`).
-/

namespace Utf8

variable {skip : ℕ → ℕ} {fuel : ℕ} {s : List UInt8}

theorem next_pos (a : UInt8) (s : List UInt8) : 1 ≤ (next (a :: s)).2 := by
  match s with
  | [] =>
    simp only [next]
    split_ifs <;> simp
  | [b] =>
    simp only [next]
    split_ifs <;> simp
  | [b, c] =>
    simp only [next]
    split_ifs <;> simp
  | b :: c :: d :: s =>
    simp only [next]
    split_ifs <;> simp

theorem read_cons (a : UInt8) (s : List UInt8) :
    read skip (fuel + 1) (a :: s) = match next (a :: s) with
      | (some c, n) => c :: read skip fuel ((a :: s).drop n)
      | (none, n) => replacement :: read skip fuel ((a :: s).drop (skip n)) := rfl

theorem decodeAux_cons (a : UInt8) (s : List UInt8) :
    decodeAux (fuel + 1) (a :: s) = match next (a :: s) with
      | (some c, n) => (decodeAux fuel ((a :: s).drop n)).map (c :: ·)
      | (none, _) => none := rfl

/-- More fuel than there are octets changes nothing. -/
theorem read_of_le (hskip : ∀ n, 1 ≤ n → 1 ≤ skip n) (h : s.length ≤ fuel) :
    read skip fuel s = read skip s.length s := by
  induction hn : s.length using Nat.strong_induction_on generalizing fuel s with
  | _ n ih =>
    cases s with
    | nil =>
      subst hn
      cases fuel <;> rfl
    | cons a s =>
      have hpos := next_pos a s
      obtain ⟨f, rfl⟩ : ∃ f, fuel = f + 1 := ⟨fuel - 1, by simp at h; omega⟩
      obtain ⟨m, rfl⟩ : ∃ m, n = m + 1 := ⟨s.length, by simp at hn; omega⟩
      have hm : s.length = m := by simpa using hn
      have hstep (k : ℕ) (hk : 1 ≤ k) :
          read skip f ((a :: s).drop k) = read skip m ((a :: s).drop k) := by
        have hlength : ((a :: s).drop k).length ≤ m := by
          rw [List.length_drop, List.length_cons]
          omega
        rw [ih _ (by omega) (by simp at h; omega) rfl, ← ih _ (by omega) hlength rfl]
      rw [read_cons, read_cons]
      rcases hnext : next (a :: s) with ⟨_ | c, k⟩
      all_goals rw [hnext] at hpos
      · exact congrArg _ (hstep _ (hskip k hpos))
      · exact congrArg _ (hstep k hpos)

theorem encodeChar_ne_nil (c : Char) : String.utf8EncodeChar c ≠ [] := by
  intro h
  have hnext := next_encode c []
  rw [h] at hnext
  cases hnext

/-- A character that is read is what its octets encode. -/
theorem encode_of_next {s : List UInt8} {c : Char} {n : ℕ} (h : next s = (some c, n)) :
    s = String.utf8EncodeChar c ++ s.drop n := by
  have hle (x y : UInt8) : x ≤ y ↔ x.toNat ≤ y.toNat := UInt8.le_iff_toNat_le
  have hlt (x y : UInt8) : x < y ↔ x.toNat < y.toNat := UInt8.lt_iff_toNat_lt
  have hof (x : UInt8) (m : ℕ) : x = UInt8.ofNat m ↔ x.toNat = m % 256 := by
    rw [← UInt8.toNat_inj, UInt8.toNat_ofNat']
  rw [next.eq_def] at h
  split at h
  · cases h
  rename_i a s
  have ha := a.toNat_lt
  split_ifs at h with h1 h2 h3 h4
  · cases h
    simp only [hlt, UInt8.reduceToNat] at h1
    rw [encode_char_of_lt (by rw [toNat_ofNat_char] <;> omega), toNat_ofNat_char (by omega)]
    simp
  · rcases s with _ | ⟨b, s⟩
    · cases h
    simp only at h
    split_ifs at h with hb
    · cases h
      simp only [hlt, hle, isTail, decide_eq_true_eq, UInt8.reduceToNat] at h1 h2 hb
      have hc : (Char.ofNat (a.toNat % 32 * 64 + low6 b)).val.toNat =
          a.toNat % 32 * 64 + low6 b := toNat_ofNat_char (by unfold low6; omega)
      unfold String.utf8EncodeChar
      simp only [hc]
      unfold low6
      rw [if_neg (by omega), if_pos (by omega)]
      simp only [List.drop_succ_cons, List.drop_zero, List.cons_append, List.nil_append,
        List.cons.injEq, hof, and_true]
      omega
    · cases h
  · rcases s with _ | ⟨b, _ | ⟨d, s⟩⟩
    · cases h
    · cases h
    simp only at h
    split_ifs at h with hb hd
    · cases h
      simp only [hlt, hle, isTail, inRange, secondRange, decide_eq_true_eq, UInt8.reduceToNat,
        ← UInt8.toNat_inj] at h1 h2 h3 hb hd
      have hsecond : 128 ≤ b.toNat ∧ b.toNat ≤ 191 ∧ (a.toNat = 224 → 160 ≤ b.toNat) ∧
          (a.toNat = 237 → b.toNat ≤ 159) := by
        split_ifs at hb <;> simp at hb <;> omega
      have hc : (Char.ofNat (a.toNat % 16 * 4096 + low6 b * 64 + low6 d)).val.toNat =
          a.toNat % 16 * 4096 + low6 b * 64 + low6 d := toNat_ofNat_char (by unfold low6; omega)
      unfold String.utf8EncodeChar
      simp only [hc]
      unfold low6
      rw [if_neg (by omega), if_neg (by omega), if_pos (by omega)]
      simp only [List.drop_succ_cons, List.drop_zero, List.cons_append, List.nil_append,
        List.cons.injEq, hof, and_true]
      omega
    · cases h
    · cases h
  · rcases s with _ | ⟨b, _ | ⟨d, _ | ⟨e, s⟩⟩⟩
    · cases h
    · cases h
    · cases h
    simp only at h
    split_ifs at h with hb hd he
    · cases h
      simp only [hlt, hle, isTail, inRange, secondRange, decide_eq_true_eq, UInt8.reduceToNat,
        ← UInt8.toNat_inj] at h1 h3 h4 hb hd he
      have hsecond : 128 ≤ b.toNat ∧ b.toNat ≤ 191 ∧ (a.toNat = 240 → 144 ≤ b.toNat) ∧
          (a.toNat = 244 → b.toNat ≤ 143) := by
        split_ifs at hb <;> simp at hb <;> omega
      have hc : (Char.ofNat
          (a.toNat % 8 * 262144 + low6 b * 4096 + low6 d * 64 + low6 e)).val.toNat =
            a.toNat % 8 * 262144 + low6 b * 4096 + low6 d * 64 + low6 e :=
        toNat_ofNat_char (by unfold low6; omega)
      unfold String.utf8EncodeChar
      simp only [hc]
      unfold low6
      rw [if_neg (by omega), if_neg (by omega), if_neg (by omega)]
      simp only [List.drop_succ_cons, List.drop_zero, List.cons_append, List.nil_append,
        List.cons.injEq, hof, and_true]
      omega
    · cases h
    · cases h
    · cases h
  · cases h

theorem encode_ofList_cons (c : Char) (t : List Char) :
    encode (String.ofList (c :: t)) = String.utf8EncodeChar c ++ encode (String.ofList t) := by
  simp [encode]

theorem encode_ofList_append (t r : List Char) :
    encode (String.ofList (t ++ r)) = encode (String.ofList t) ++ encode (String.ofList r) := by
  simp [encode]

theorem read_encode_append (hskip : ∀ n, 1 ≤ n → 1 ≤ skip n) (t : List Char) (s : List UInt8) :
    read skip (encode (String.ofList t) ++ s).length (encode (String.ofList t) ++ s) =
      t ++ read skip s.length s := by
  induction t with
  | nil => rfl
  | cons c t ih =>
    rw [encode_ofList_cons, List.append_assoc]
    generalize encode (String.ofList t) ++ s = r at ih
    have hnext := next_encode c r
    obtain ⟨a, b, hc⟩ := List.exists_cons_of_ne_nil (encodeChar_ne_nil c)
    rw [hc] at hnext ⊢
    rw [List.cons_append, List.length_cons, read_cons]
    rw [List.cons_append] at hnext
    rw [hnext]
    simp only [List.length_cons, List.drop_succ_cons, List.drop_left, List.cons_append]
    rw [read_of_le hskip (by simp), ih]

/-- An ASCII octet of a text is one of its characters. -/
theorem mem_of_mem_encode {b : UInt8} (hb : b < 0x80) {t : List Char}
    (h : b ∈ encode (String.ofList t)) : Char.ofNat b.toNat ∈ t := by
  have hof (n : ℕ) : (UInt8.ofNat n).toNat = n % 256 := UInt8.toNat_ofNat'
  have hnat : b.toNat < 128 := UInt8.lt_iff_toNat_lt.1 hb
  obtain ⟨c, hc, hmem⟩ := List.mem_flatMap.1 h
  rw [String.toList_ofList] at hc
  suffices hchar : b.toNat = c.val.toNat by
    rw [hchar]
    exact (Char.ofNat_toNat c).symm ▸ hc
  unfold String.utf8EncodeChar at hmem
  generalize c.val.toNat = v at hmem
  simp only at hmem
  split_ifs at hmem
  all_goals
    simp only [List.mem_cons, List.not_mem_nil, or_false, ← UInt8.toNat_inj, hof] at hmem
    omega

theorem lossy_encode_append (t : List Char) (s : List UInt8) :
    lossy (encode (String.ofList t) ++ s) = t ++ lossy s :=
  read_encode_append (fun _ h => h) t s

theorem lossy_encode (t : List Char) : lossy (encode (String.ofList t)) = t := by
  have h := lossy_encode_append t []
  rwa [List.append_nil, show lossy [] = [] from rfl, List.append_nil] at h

theorem decodeAux_of_le (h : s.length ≤ fuel) : decodeAux fuel s = decodeAux s.length s := by
  induction hn : s.length using Nat.strong_induction_on generalizing fuel s with
  | _ n ih =>
    cases s with
    | nil =>
      subst hn
      cases fuel <;> rfl
    | cons a s =>
      have hpos := next_pos a s
      obtain ⟨f, rfl⟩ : ∃ f, fuel = f + 1 := ⟨fuel - 1, by simp at h; omega⟩
      obtain ⟨m, rfl⟩ : ∃ m, n = m + 1 := ⟨s.length, by simp at hn; omega⟩
      have hm : s.length = m := by simpa using hn
      rw [decodeAux_cons, decodeAux_cons]
      rcases hnext : next (a :: s) with ⟨_ | c, k⟩
      · rfl
      rw [hnext] at hpos
      have hlength : ((a :: s).drop k).length ≤ m := by
        rw [List.length_drop, List.length_cons]
        simp only at hpos
        omega
      simp only
      rw [ih _ (by omega) (by simp at h; omega) rfl, ← ih _ (by omega) hlength rfl]

theorem decode_encode_append (t : List Char) (s : List UInt8) :
    decode (encode (String.ofList t) ++ s) = (decode s).map (t ++ ·) := by
  induction t with
  | nil => cases h : decode s <;> simpa [encode] using h
  | cons c t ih =>
    rw [encode_ofList_cons, List.append_assoc]
    generalize encode (String.ofList t) ++ s = r at ih
    have hnext := next_encode c r
    obtain ⟨a, b, hc⟩ := List.exists_cons_of_ne_nil (encodeChar_ne_nil c)
    rw [hc] at hnext ⊢
    rw [List.cons_append] at hnext ⊢
    rw [decode, List.length_cons, decodeAux_cons, hnext]
    simp only [List.length_cons, List.drop_succ_cons, List.drop_left]
    rw [decodeAux_of_le (by simp), ← decode, ih, Option.map_map]
    rfl

theorem decode_encode (t : List Char) : decode (encode (String.ofList t)) = some t := by
  have h := decode_encode_append t []
  rwa [List.append_nil, show decode [] = some [] from rfl, Option.map_some, List.append_nil] at h

/-! ### A text that is cut -/

/-- A part of a character is no character; it is one ill-formed part. -/
theorem next_take {s : List UInt8} {c : Char} {n k : ℕ} (h : next s = (some c, n)) (hk : k < n) :
    next (s.take k) = (none, k) := by
  rcases Nat.eq_zero_or_pos k with rfl | hpos
  · rfl
  rcases s with _ | ⟨a, s⟩
  · cases h
  rw [next.eq_def] at h
  simp only at h
  split_ifs at h with h1 h2 h3 h4
  · cases h
    omega
  · rcases s with _ | ⟨b, s⟩
    · cases h
    simp only at h
    split_ifs at h with hb
    · cases h
      obtain rfl : k = 1 := by omega
      simp [next, h1, h2]
    · cases h
  · rcases s with _ | ⟨b, _ | ⟨d, s⟩⟩
    · cases h
    · cases h
    simp only at h
    split_ifs at h with hb hd
    · cases h
      obtain rfl | rfl : k = 1 ∨ k = 2 := by omega
      · simp [next, h1, h2, h3]
      · simpa [next, h1, h2, h3] using hb
    · cases h
    · cases h
  · rcases s with _ | ⟨b, _ | ⟨d, _ | ⟨e, s⟩⟩⟩
    · cases h
    · cases h
    · cases h
    simp only at h
    split_ifs at h with hb hd he
    · cases h
      obtain rfl | rfl | rfl : k = 1 ∨ k = 2 ∨ k = 3 := by omega
      · simp [next, h1, h2, h3, h4]
      · simpa [next, h1, h2, h3, h4] using hb
      · simp [next, h1, h2, h3, h4, hb, hd]
    · cases h
    · cases h
    · cases h
  · cases h

/-- A text cut at a number of octets: whole characters and a part of the next one. -/
theorem exists_take_encode (cs : List Char) (n : ℕ)
    (hn : n ≤ (encode (String.ofList cs)).length) : ∃ s t r, cs = s ++ t ∧
      (encode (String.ofList cs)).take n = encode (String.ofList s) ++ r ∧
      next r = (none, r.length) ∧
      ∀ c ∈ t.head?, n < (encode (String.ofList s)).length + (String.utf8EncodeChar c).length := by
  induction cs generalizing n with
  | nil => exact ⟨[], [], [], rfl, by simp [encode], rfl, by simp⟩
  | cons c cs ih =>
    rw [encode_ofList_cons, List.length_append] at hn
    by_cases hc : (String.utf8EncodeChar c).length ≤ n
    · obtain ⟨s, t, r, rfl, htake, hnext, ht⟩ :=
        ih (n - (String.utf8EncodeChar c).length) (by omega)
      refine ⟨c :: s, t, r, rfl, ?_, hnext, fun d hd => ?_⟩
      · rw [encode_ofList_cons, encode_ofList_cons, List.take_append, htake,
          List.take_of_length_le hc, List.append_assoc]
      · have := ht d hd
        rw [encode_ofList_cons, List.length_append]
        omega
    · refine ⟨[], c :: cs, (String.utf8EncodeChar c).take n, rfl, ?_, ?_, ?_⟩
      · rw [encode_ofList_cons, List.take_append_of_le_length (by omega)]
        rfl
      · have hlength : ((String.utf8EncodeChar c).take n).length = n := by
          rw [List.length_take]
          omega
        have hnext := next_encode c []
        rw [List.append_nil] at hnext
        rw [hlength]
        exact next_take hnext (by omega)
      · intro d hd
        obtain rfl := Option.some.inj hd
        show n < 0 + (String.utf8EncodeChar c).length
        omega

/-! ### Order -/

theorem toNat_octet {c : Char} (h : c.toNat < 128) : (octet c).toNat = c.toNat := by
  rw [octet, UInt8.toNat_ofNat', Nat.mod_eq_of_lt (by omega)]

theorem encode_of_ascii {s : List Char} (h : ∀ c ∈ s, c.toNat < 128) :
    encode (String.ofList s) = s.map octet := by
  induction s with
  | nil => rfl
  | cons c s ih =>
    rw [encode_ofList_cons, encode_char_of_lt (h c List.mem_cons_self),
      ih fun x hx => h x (List.mem_cons_of_mem _ hx)]
    rfl

/-- On ASCII the octets of two texts are ordered as their characters are. -/
theorem encode_lt_encode_iff {s t : List Char} (hs : ∀ c ∈ s, c.toNat < 128)
    (ht : ∀ c ∈ t, c.toNat < 128) :
    encode (String.ofList s) < encode (String.ofList t) ↔ s < t := by
  rw [encode_of_ascii hs, encode_of_ascii ht]
  induction s generalizing t with
  | nil => cases t <;> simp
  | cons x s ih =>
    cases t with
    | nil => simp
    | cons y t =>
      have hx := toNat_octet (hs x List.mem_cons_self)
      have hy := toNat_octet (ht y List.mem_cons_self)
      have hlt : octet x < octet y ↔ x < y := by
        rw [UInt8.lt_iff_toNat_lt, hx, hy]
        exact Iff.rfl
      have heq : octet x = octet y ↔ x = y := by
        rw [← UInt8.toNat_inj, hx, hy, Char.toNat_inj]
      rw [List.map_cons, List.map_cons, List.cons_lt_cons_iff, List.cons_lt_cons_iff, hlt, heq,
        ih (fun c hc => hs c (List.mem_cons_of_mem _ hc)) fun c hc =>
          ht c (List.mem_cons_of_mem _ hc)]

end Utf8
