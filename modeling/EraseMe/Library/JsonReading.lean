import EraseMe.Library.JsonSpelling

/-!
# Reading JSON texts with any numbers

A reader of the texts that `Spells StringText number` describes (`decode_document`): strings are
read by `readChars`, and every other token by the automaton of the tokens.
-/

namespace Json

variable (number : Octets → ℤ ⊕ ℤ × ℤ)

/-- What a word or a number stands for. -/
def tokenValue (kind : Kind) (text : Octets) : Json :=
  match kind with
  | .number =>
      match number text with
      | .inl n => .int n
      | .inr (mantissa, exponent) => .float mantissa exponent
  | .bool => .bool (text.head? = some 116)
  | _ => .null

/-- A word or a number, and what follows it. -/
def decodeToken (s : Octets) : Option (Json × Octets) :=
  match readToken s with
  | .done (kind, r) => some (tokenValue number kind (s.take (s.length - r.length)), r)
  | _ => none

mutual

/-- The value at the start, and what follows it. -/
def decodeValue : ℕ → Octets → Option (Json × Octets)
  | 0, _ => none
  | _ + 1, [] => none
  | fuel + 1, b :: s =>
      if b = 34 then
        (readChars (s.length + 1) s).map fun r => (.string (String.ofList r.1), r.2)
      else if b = 91 then
        if (skipBlank s).head? = some 93 then some (.array [], (skipBlank s).tail)
        else (decodeItems fuel s).map fun r => (.array r.1, r.2)
      else if b = 123 then
        if (skipBlank s).head? = some 125 then some (.object [], (skipBlank s).tail)
        else (decodeMembers fuel s).map fun r => (.object r.1, r.2)
      else decodeToken number (b :: s)

/-- Read items. -/
def decodeItems : ℕ → Octets → Option (List Json × Octets)
  | 0, _ => none
  | fuel + 1, s =>
      match decodeValue fuel (skipBlank s) with
      | none => none
      | some (v, s) =>
          match skipBlank s with
          | [] => none
          | b :: s =>
              if b = 44 then (decodeItems fuel s).map fun r => (v :: r.1, r.2)
              else if b = 93 then some ([v], s)
              else none

/-- Read members. -/
def decodeMembers : ℕ → Octets → Option (List (String × Json) × Octets)
  | 0, _ => none
  | fuel + 1, s =>
      match decodeValue fuel (skipBlank s) with
      | some (.string key, s) =>
          match skipBlank s with
          | [] => none
          | b :: s =>
              if b = 58 then
                match decodeValue fuel (skipBlank s) with
                | none => none
                | some (v, s) =>
                    match skipBlank s with
                    | [] => none
                    | b :: s =>
                        if b = 44 then (decodeMembers fuel s).map fun r => ((key, v) :: r.1, r.2)
                        else if b = 125 then some ([(key, v)], s)
                        else none
              else none
      | _ => none

end

/-- The value of a text with blanks around it. -/
def decode (s : Octets) : Option Json :=
  match decodeValue number (s.length + 1) (skipBlank s) with
  | some (v, s) => if skipBlank s = [] then some v else none
  | none => none

section Decode

variable {number}

theorem stops_of_ends {kind : Kind} {t s : Octets} (h : Ends s) : Stops kind t s := by
  refine stops_of_head fun b hb => ?_
  have hall : ∀ b ∈ ([32, 10, 13, 9, 44, 93, 125] : Octets), isNumberOctet b = false := by decide
  refine hall b ?_
  rcases h b hb with hb | rfl | rfl | rfl
  · rw [isBlank, decide_eq_true_eq] at hb
    rcases hb with rfl | rfl | rfl | rfl <;> decide
  all_goals decide

theorem decodeToken_token {kind : Kind} {t s : Octets} (ht : TokenText kind t) (hs : Ends s) :
    decodeToken number (t ++ s) = some (tokenValue number kind t, s) := by
  have hread : readToken (t ++ s) = .done (kind, s) :=
    readToken_eq_done.2 ⟨t, rfl, ht, stops_of_ends hs⟩
  rw [decodeToken, hread]
  simp

theorem decodeValue_token {kind : Kind} {t s : Octets} (ht : TokenText kind t)
    (hstring : t.head? ≠ some 34) (hs : Ends s) (fuel : ℕ) :
    decodeValue number (fuel + 1) (t ++ s) = some (tokenValue number kind t, s) := by
  have hread : decodeToken number (t ++ s) = some (tokenValue number kind t, s) :=
    decodeToken_token ht hs
  obtain ⟨b, t', rfl, -, hmark⟩ := head_token ht
  simp only [List.mem_cons, List.not_mem_nil, or_false, not_or] at hmark
  rw [List.cons_append, decodeValue, if_neg (by simpa using hstring), if_neg hmark.2.2.1,
    if_neg hmark.2.2.2.2.1]
  exact hread

theorem decodeValue_string {text : String} {t : Octets} (h : StringText text t) (fuel : ℕ)
    (s : Octets) : decodeValue number (fuel + 1) (t ++ s) = some (.string text, s) := by
  obtain ⟨body, hbody, rfl⟩ := h
  rw [List.cons_append, List.append_assoc, decodeValue, if_pos rfl, List.singleton_append,
    readChars_chars hbody s _ (by simp), Option.map_some, String.ofList_toList]

theorem head_numberText_ne {t : Octets} (h : NumberText t) : t.head? ≠ some 34 := by
  obtain ⟨b, t', rfl, hb⟩ := head_numberText h
  rcases hb with rfl | hb
  · simp
  · simpa using isDigit_ne hb rfl

mutual

theorem decodeValue_spells : ∀ (v : Json) {t s : Octets} {fuel : ℕ},
    Spells StringText number v t → t.length < fuel → Ends s →
      decodeValue number fuel (t ++ s) = some (v, s)
  | v, t, s, 0, _, hfuel, _ => absurd hfuel (Nat.not_lt_zero _)
  | .null, t, s, fuel + 1, h, _, hs => by
      simp only [Spells] at h
      subst h
      exact decodeValue_token .null (by decide) hs fuel
  | .bool true, t, s, fuel + 1, h, _, hs => by
      simp only [Spells, if_true] at h
      subst h
      exact decodeValue_token .true (by decide) hs fuel
  | .bool false, t, s, fuel + 1, h, _, hs => by
      simp only [Spells] at h
      subst h
      exact decodeValue_token .false (by decide) hs fuel
  | .int n, t, s, fuel + 1, h, _, hs => by
      simp only [Spells] at h
      rw [decodeValue_token (.number h.1) (head_numberText_ne h.1) hs fuel, tokenValue, h.2]
  | .float mantissa exponent, t, s, fuel + 1, h, _, hs => by
      simp only [Spells] at h
      rw [decodeValue_token (.number h.1) (head_numberText_ne h.1) hs fuel, tokenValue, h.2]
  | .string text, t, s, fuel + 1, h, _, _ => by
      simp only [Spells] at h
      exact decodeValue_string h fuel s
  | .array [], t, s, fuel + 1, h, _, _ => by
      simp only [Spells, SpellsItems] at h
      obtain ⟨w, hw, rfl⟩ := h
      have hskip := skipBlank_mark (s := s) hw (by decide : isBlank 93 = false)
      rw [List.cons_append, List.append_assoc, decodeValue, if_neg (by decide), if_pos rfl,
        List.singleton_append, hskip, List.head?_cons, if_pos rfl, List.tail_cons]
  | .array (v :: items), t, s, fuel + 1, h, hfuel, _ => by
      rw [Spells] at h
      obtain ⟨inner, hinner, rfl⟩ := h
      have hread : decodeItems number fuel (inner ++ 93 :: s) = some (v :: items, s) :=
        decodeItems_spells (v :: items) hinner (by simp) (by simp at hfuel ⊢; omega)
      have hhead : (skipBlank (inner ++ 93 :: s)).head? ≠ some 93 := by
        rw [SpellsItems] at hinner
        obtain ⟨w, text, w', hw, htext, -, hcases⟩ := hinner
        have hne (r : Octets) : (text ++ r).head? ≠ some 93 := by
          obtain ⟨b, t', rfl, hb⟩ := head_spells htext
          simpa using hb.ne.2.1
        rcases hcases with ⟨-, rfl⟩ | ⟨-, rest, -, rfl⟩
        · rw [List.append_assoc, List.append_assoc, skipBlank_spells htext hw]
          exact hne _
        · rw [List.append_assoc, List.append_assoc, skipBlank_spells htext hw]
          exact hne _
      rw [List.cons_append, List.append_assoc, decodeValue, if_neg (by decide), if_pos rfl,
        List.singleton_append, if_neg hhead, hread, Option.map_some]
  | .object [], t, s, fuel + 1, h, _, _ => by
      simp only [Spells, SpellsMembers] at h
      obtain ⟨w, hw, rfl⟩ := h
      have hskip := skipBlank_mark (s := s) hw (by decide : isBlank 125 = false)
      rw [List.cons_append, List.append_assoc, decodeValue, if_neg (by decide),
        if_neg (by decide), if_pos rfl, List.singleton_append, hskip, List.head?_cons,
        if_pos rfl, List.tail_cons]
  | .object ((key, v) :: fields), t, s, fuel + 1, h, hfuel, _ => by
      rw [Spells] at h
      obtain ⟨inner, hinner, rfl⟩ := h
      have hread : decodeMembers number fuel (inner ++ 125 :: s) = some ((key, v) :: fields, s) :=
        decodeMembers_spells ((key, v) :: fields) hinner (by simp) (by simp at hfuel ⊢; omega)
      have hhead : (skipBlank (inner ++ 125 :: s)).head? ≠ some 125 := by
        rw [SpellsMembers] at hinner
        obtain ⟨w, k, w₁, w₂, text, w', hw, ⟨body, -, rfl⟩, -, -, -, -, hcases⟩ := hinner
        rcases hcases with ⟨-, rfl⟩ | ⟨-, rest, -, rfl⟩
        · rw [List.append_assoc, List.cons_append, List.cons_append,
            skipBlank_mark hw (by decide)]
          simp
        · rw [List.append_assoc, List.cons_append, List.cons_append,
            skipBlank_mark hw (by decide)]
          simp
      rw [List.cons_append, List.append_assoc, decodeValue, if_neg (by decide),
        if_neg (by decide), if_pos rfl, List.singleton_append, if_neg hhead, hread,
        Option.map_some]

theorem decodeItems_spells : ∀ (items : List Json) {t s : Octets} {fuel : ℕ},
    SpellsItems StringText number items t → items ≠ [] → t.length + 1 < fuel →
      decodeItems number fuel (t ++ 93 :: s) = some (items, s)
  | [], _, _, _, _, hne, _ => absurd rfl hne
  | v :: items, t, s, 0, _, _, hfuel => absurd hfuel (Nat.not_lt_zero _)
  | v :: items, t, s, fuel + 1, h, _, hfuel => by
      rw [SpellsItems] at h
      obtain ⟨w, text, w', hw, htext, hw', ⟨rfl, rfl⟩ | ⟨hne, rest, hrest, rfl⟩⟩ := h
      · rw [List.append_assoc, List.append_assoc, decodeItems, skipBlank_spells htext hw,
          decodeValue_spells v htext (by simp at hfuel; omega) (ends_mark hw' (by simp))]
        simp only [skipBlank_mark hw' (show isBlank 93 = false by decide)]
        rfl
      · have hread : decodeItems number fuel (rest ++ 93 :: s) = some (items, s) :=
          decodeItems_spells items hrest hne (by simp at hfuel; omega)
        rw [List.append_assoc, List.append_assoc, List.append_assoc, List.cons_append, decodeItems,
          skipBlank_spells htext hw,
          decodeValue_spells v htext (by simp at hfuel; omega) (ends_mark hw' (by simp))]
        simp only [skipBlank_mark hw' (show isBlank 44 = false by decide), hread]
        rfl

theorem decodeMembers_spells : ∀ (fields : List (String × Json)) {t s : Octets} {fuel : ℕ},
    SpellsMembers StringText number fields t → fields ≠ [] → t.length + 1 < fuel →
      decodeMembers number fuel (t ++ 125 :: s) = some (fields, s)
  | [], _, _, _, _, hne, _ => absurd rfl hne
  | f :: fields, t, s, 0, _, _, hfuel => absurd hfuel (Nat.not_lt_zero _)
  | (key, v) :: fields, t, s, fuel + 1, h, _, hfuel => by
      rw [SpellsMembers] at h
      obtain ⟨w, k, w₁, w₂, text, w', hw, hk, hw₁, hw₂, htext, hw', hcases⟩ := h
      obtain ⟨fuel, rfl⟩ : ∃ n, fuel = n + 1 := by
        refine ⟨fuel - 1, ?_⟩
        obtain ⟨body, -, rfl⟩ := hk
        rcases hcases with ⟨-, rfl⟩ | ⟨-, rest, -, rfl⟩
        · simp at hfuel
          omega
        · simp at hfuel
          omega
      have hskip (r : Octets) : skipBlank (w ++ (k ++ r)) = k ++ r := by
        obtain ⟨body, -, rfl⟩ := hk
        exact skipBlank_mark hw (by decide)
      rcases hcases with ⟨rfl, rfl⟩ | ⟨hne, rest, hrest, rfl⟩
      · simp only [List.append_assoc, List.cons_append]
        rw [decodeMembers, hskip, decodeValue_string hk]
        simp only [skipBlank_mark hw₁ (show isBlank 58 = false by decide), if_true,
          skipBlank_spells htext hw₂]
        rw [decodeValue_spells v htext (by simp at hfuel; omega) (ends_mark hw' (by simp))]
        simp only [skipBlank_mark hw' (show isBlank 125 = false by decide)]
        rfl
      · have hread : decodeMembers number (fuel + 1) (rest ++ 125 :: s) = some (fields, s) :=
          decodeMembers_spells fields hrest hne (by simp at hfuel; omega)
        simp only [List.append_assoc, List.cons_append]
        rw [decodeMembers, hskip, decodeValue_string hk]
        simp only [skipBlank_mark hw₁ (show isBlank 58 = false by decide), if_true,
          skipBlank_spells htext hw₂]
        rw [decodeValue_spells v htext (by simp at hfuel; omega) (ends_mark hw' (by simp))]
        simp only [skipBlank_mark hw' (show isBlank 44 = false by decide), if_true, hread]
        rfl

end

theorem decode_document {v : Json} {s : Octets} (h : SpellsDocument StringText number v s) :
    decode number s = some v := by
  obtain ⟨w, text, w', hw, htext, hw', rfl⟩ := h
  have hread : decodeValue number ((w ++ (text ++ w')).length + 1) (text ++ w') = some (v, w') :=
    decodeValue_spells v htext (by simp; omega) (ends_blank hw')
  have hblank : skipBlank w' = [] := by
    have hskip := skipBlank_append (s := []) hw' (by simp)
    rwa [List.append_nil] at hskip
  rw [decode, skipBlank_spells htext hw, hread]
  simp only [hblank, if_true]

end Decode

end Json
