import EraseMe.Identity.ProfileCursor

/-!
# What the filter keeps of a text

As values go, the filter drops the members that are not fields and stops at a field whose value is
of another kind (`keepProfile`).  The filter of octets makes of a text of a value a text of what is
kept, and fails where nothing is (`reduceProfileJson_document`).
-/

namespace EraseMe.Identity.Secrets

open Json

/-! ### What is kept -/

/-- A string or `null`. -/
def isText : Json → Bool
  | .null => true
  | .string _ => true
  | _ => false

/-- The values of a simple field. -/
def fitsSimple : ProfileFieldKind → Json → Bool
  | .scalar, v => isText v
  | .optional, v => isText v
  | .strings, .null => true
  | .strings, .array items => items.all isText
  | .strings, _ => false
  | .addresses, _ => false

/-- A simple value that fits. -/
def keepSimple (kind : ProfileFieldKind) (v : Json) : Option Json :=
  if fitsSimple kind v then some v else none

/-- The fields among the members, in their order. -/
def keepFields (address : Bool) (keep : ProfileFieldKind → Json → Option Json) :
    List (String × Json) → Option (List (String × Json))
  | [] => some []
  | (name, v) :: fields =>
      match profileFieldKind name address with
      | none => keepFields address keep fields
      | some kind =>
          (keep kind v).bind fun v => (keepFields address keep fields).map fun r => (name, v) :: r

/-- An address, filtered. -/
def keepAddress : Json → Option Json
  | .null => some .null
  | .object fields => (keepFields true keepSimple fields).map .object
  | _ => none

/-- A value of a kind, filtered. -/
def keepKind : ProfileFieldKind → Json → Option Json
  | .addresses, .null => some .null
  | .addresses, .array items => (items.mapM keepAddress).map .array
  | .addresses, _ => none
  | kind, v => keepSimple kind v

/-- A profile, filtered. -/
def keepProfile : Json → Option Json
  | .null => some .null
  | .object fields => (keepFields false keepKind fields).map .object
  | _ => none

/-! ### Checks of simple values -/

section Check

variable {number : Octets → ℤ ⊕ ℤ × ℤ}

theorem ends_nil : Ends [] := nofun

theorem parseOptionalString_spells {v : Json} {t : Bytes} (ht : Spells StringText number v t)
    {s : Bytes} (hs : Ends s) :
    parseOptionalString (t ++ s) = if isText v then some s else none := by
  have hother {b : UInt8} {t' : Bytes} (hb : b ≠ 34 ∧ b ≠ 110) :
      parseOptionalString (b :: t' ++ s) = none := by
    rw [parseOptionalString, List.cons_append, List.head?_cons, if_neg (by simpa using hb.1),
      if_neg (by simpa using hb.2)]
  have hnumber {b : UInt8} (hb : b = 45 ∨ isDigit b = true) : b ≠ 34 ∧ b ≠ 110 := by
    rcases hb with rfl | hb
    · decide
    · exact ⟨isDigit_ne hb rfl, isDigit_ne hb rfl⟩
  obtain ⟨b, t', rfl, hb⟩ := head_spells ht
  cases v with
  | null =>
    have hskip : skipValue (b :: t' ++ s) = some (b :: t', s) :=
      skipValue_spells blank_nil ht hs (Nat.zero_le _)
    simp only [Spells] at ht
    cases hb
    have hhead : (110 :: t' ++ s).head? = some 110 := rfl
    rw [parseOptionalString, hhead, if_neg (by decide), if_pos rfl, skipNull, hskip]
    simp [ht, isText]
  | string text =>
    simp only [Spells] at ht
    have hparse := parseString_text ht s
    cases hb
    have hhead : (34 :: t' ++ s).head? = some 34 := rfl
    rw [parseOptionalString, hhead, if_pos rfl, hparse]
    rfl
  | bool b' => exact hother (by rcases hb with rfl | rfl <;> decide)
  | int n => exact hother (hnumber hb)
  | float mantissa exponent => exact hother (hnumber hb)
  | array items => exact hother (by cases hb; decide)
  | object fields => exact hother (by cases hb; decide)

/-- The blanks before the first item. -/
theorem skipBlank_items {v : Json} {items : List Json} {t : Bytes}
    (h : SpellsItems StringText number (v :: items) t) :
    ∃ t', SpellsItems StringText number (v :: items) t' ∧ t'.length ≤ t.length ∧
      ∀ s, skipBlank (t ++ s) = t' ++ s ∧ (t' ++ s).head? ≠ some 93 := by
  rw [SpellsItems] at h
  obtain ⟨w, text, w', hw, htext, hw', hcases⟩ := h
  have hhead (s : Bytes) : (text ++ s).head? ≠ some 93 := by
    obtain ⟨b, t', rfl, hb⟩ := head_spells htext
    simpa using hb.ne.2.1
  rcases hcases with ⟨hnil, rfl⟩ | ⟨hne, rest, hrest, rfl⟩
  · refine ⟨text ++ w', ?_, by simp, fun s => ⟨?_, ?_⟩⟩
    · rw [SpellsItems]
      exact ⟨[], text, w', blank_nil, htext, hw', Or.inl ⟨hnil, rfl⟩⟩
    · rw [List.append_assoc, List.append_assoc, skipBlank_spells htext hw]
    · rw [List.append_assoc]
      exact hhead _
  · refine ⟨text ++ (w' ++ 44 :: rest), ?_, by simp, fun s => ⟨?_, ?_⟩⟩
    · rw [SpellsItems]
      exact ⟨[], text, w', blank_nil, htext, hw', Or.inr ⟨hne, rest, hrest, rfl⟩⟩
    · rw [List.append_assoc, List.append_assoc, skipBlank_spells htext hw, List.append_assoc]
    · rw [List.append_assoc]
      exact hhead _

theorem head_items {items : List Json} {t : Bytes} (h : SpellsItems StringText number items t)
    (hne : items ≠ []) (s : Bytes) : (skipBlank (t ++ s)).head? ≠ some 93 := by
  obtain ⟨v, items, rfl⟩ := List.exists_cons_of_ne_nil hne
  obtain ⟨t', -, -, hskip⟩ := skipBlank_items h
  rw [(hskip s).1]
  exact (hskip s).2

theorem validateStrings_items : ∀ (items : List Json) {t s : Bytes} {fuel : ℕ},
    SpellsItems StringText number items t → items ≠ [] → t.length < fuel →
      validateStrings fuel (t ++ 93 :: s) = if items.all isText then some s else none
  | [], _, _, _, _, hne, _ => absurd rfl hne
  | v :: items, t, s, fuel, ht, _, hfuel => by
      obtain ⟨fuel, rfl⟩ : ∃ n, fuel = n + 1 := ⟨fuel - 1, by omega⟩
      rw [SpellsItems] at ht
      obtain ⟨w, text, w', hw, htext, hw', ⟨rfl, rfl⟩ | ⟨hne, tail, htail, rfl⟩⟩ := ht
      · rw [List.append_assoc, List.append_assoc, validateStrings, skipBlank_spells htext hw,
          parseOptionalString_spells htext (ends_mark hw' (by simp))]
        cases hv : isText v with
        | false => simp [hv]
        | true =>
          simp only [if_true, skipBlank_mark hw' (show isBlank 93 = false by decide)]
          simp [hv]
      · rw [List.append_assoc, List.append_assoc, List.append_assoc, List.cons_append,
          validateStrings, skipBlank_spells htext hw,
          parseOptionalString_spells htext (ends_mark hw' (by simp))]
        cases hv : isText v with
        | false => simp [hv]
        | true =>
          have hlen : tail.length < fuel := by simp at hfuel; omega
          have hmore := validateStrings_items items (s := s) htail hne hlen
          simp only [if_true, skipBlank_mark hw' (show isBlank 44 = false by decide),
            if_neg (head_items htail hne _), hmore]
          simp [hv]

theorem atEnd_nil : atEnd [] = true := rfl

/-- The check of a value of a simple field. -/
theorem validateSimpleValue_spells {v : Json} {t : Bytes} (ht : Spells StringText number v t)
    (kind : ProfileFieldKind) : validateSimpleValue t kind = fitsSimple kind v := by
  have hskip : skipBlank t = t := by simpa using skipBlank_spells ht blank_nil []
  have hparse : parseOptionalString t = if isText v then some [] else none := by
    simpa using parseOptionalString_spells ht ends_nil
  have htext : (parseOptionalString t).any atEnd = isText v := by
    rw [hparse]
    cases isText v
    · rfl
    · rfl
  unfold validateSimpleValue
  simp only [hskip]
  cases kind with
  | scalar => exact htext
  | optional => exact htext
  | addresses => rfl
  | strings =>
    simp only
    obtain ⟨b, t', rfl, hb⟩ := head_spells ht
    have hother (hb : b ≠ 110 ∧ b ≠ 91) (hv : fitsSimple .strings v = false) :
        (if (b :: t').head? = some 110 then (skipNull (b :: t')).any atEnd
          else if (b :: t').head? ≠ some 91 then false
          else if (skipBlank (b :: t').tail).head? = some 93 then
            atEnd (skipBlank (b :: t').tail).tail
          else (validateStrings (skipBlank (b :: t').tail).length
            (skipBlank (b :: t').tail)).any atEnd) = fitsSimple .strings v := by
      rw [List.head?_cons, if_neg (by simpa using hb.1), if_pos (by simpa using hb.2), hv]
    have hnumber (hb : b = 45 ∨ isDigit b = true) : b ≠ 110 ∧ b ≠ 91 := by
      rcases hb with rfl | hb
      · decide
      · exact ⟨isDigit_ne hb rfl, isDigit_ne hb rfl⟩
    cases v with
    | null =>
      have hnull : skipValue (b :: t') = some (b :: t', []) := by
        simpa using skipValue_spells blank_nil ht ends_nil (Nat.zero_le _)
      simp only [Spells] at ht
      cases hb
      rw [List.head?_cons, if_pos rfl, skipNull, hnull]
      simp [ht, atEnd_nil, fitsSimple]
    | bool b' => exact hother (by rcases hb with rfl | rfl <;> decide) rfl
    | int n => exact hother (hnumber hb) rfl
    | float mantissa exponent => exact hother (hnumber hb) rfl
    | string text => exact hother (by cases hb; decide) rfl
    | object fields => exact hother (by cases hb; decide) rfl
    | array items =>
      cases hb
      simp only [Spells] at ht
      obtain ⟨inner, hinner, hinner'⟩ := ht
      obtain rfl : t' = inner ++ [93] := by simpa using hinner'
      rw [List.head?_cons, if_neg (by decide), if_neg (by simp), List.tail_cons, fitsSimple]
      cases items with
      | nil =>
        simp only [SpellsItems] at hinner
        rw [skipBlank_mark hinner (by decide), List.head?_cons, if_pos rfl]
        rfl
      | cons v items =>
        obtain ⟨inner', hinner', -, hblank⟩ := skipBlank_items hinner
        obtain ⟨hblank, hhead⟩ := hblank [93]
        rw [hblank, if_neg hhead,
          validateStrings_items (v :: items) hinner' (by simp) (by simp)]
        cases (v :: items).all isText
        · rfl
        · rfl

theorem reduceSimple_spells {v : Json} {w t s : Bytes} (hw : Blank w)
    (ht : Spells StringText number v t) (hs : Ends s) (hdepth : v.depth ≤ goMaxJsonNestingDepth)
    (kind : ProfileFieldKind) :
    reduceSimple kind (w ++ (t ++ s)) = if fitsSimple kind v then some (t, s) else none := by
  rw [reduceSimple, skipValue_spells hw ht hs hdepth, Option.filter_some,
    validateSimpleValue_spells ht]

/-- `null` instead of an object or an array. -/
theorem skipNull_spells {v : Json} {t s : Bytes} (ht : Spells StringText number v t) (hs : Ends s)
    (hv : v = .null) : skipNull (t ++ s) = some s := by
  subst hv
  have hskip : skipValue (t ++ s) = some (t, s) :=
    skipValue_spells blank_nil ht hs (Nat.zero_le _)
  simp only [Spells] at ht
  rw [skipNull, hskip]
  simp [ht]

end Check

/-! ### The filter -/

/-- Texts without numbers are read as their values. -/
def SerdeJson.ReadsTexts (serde : SerdeJson) : Prop :=
  ∀ v s, Numberless v → v.depth ≤ maxDepth → Document v s → serde.fromSlice s = some v

/-- The value of a known member, by the kind of the member. -/
def reduceKind (serde : SerdeJson) (fuel : ℕ) (kind : ProfileFieldKind) (s : Bytes) :
    Option (Bytes × Bytes) :=
  match kind with
  | .addresses => reduceAddressArray serde fuel s
  | kind => reduceSimple kind s

/-- The value of any member; what is not a field is skipped. -/
def reduceMember (serde : SerdeJson) (fuel : ℕ) (kind : Option ProfileFieldKind) (s : Bytes) :
    Option (Bytes × Bytes) :=
  match kind with
  | none => skipValue s
  | some kind => reduceKind serde fuel kind s

section Filter

variable {number : Octets → ℤ ⊕ ℤ × ℤ} {serde : SerdeJson}

theorem decodeName_text (hserde : serde.ReadsTexts) {name : String} {k : Bytes}
    (hk : StringText name k) : decodeName serde k = some name := by
  have htext : Text (.string name) k := by simpa only [Text] using hk
  have hdocument : Document (.string name) k :=
    ⟨[], k, [], blank_nil, htext, blank_nil, by simp⟩
  rw [decodeName, hserde _ _ (by simp only [Numberless]) (Nat.zero_le _) hdocument]
  rfl

/-- The loop over the members, after the value of one. -/
def afterMember (serde : SerdeJson) (fuel : ℕ) (address hasField field : Bool) (out s : Bytes) :
    Option (Bytes × Bytes) :=
  match skipBlank s with
  | [] => none
  | b :: s =>
      if b = 44 then
        if (skipBlank s).head? = some 125 then none
        else (reduceMembers serde fuel address (hasField || field) s).map fun r => (out ++ r.1, r.2)
      else if b = 125 then some (out ++ [125], s)
      else none

/-- One turn of the loop over the members. -/
theorem reduceMembers_succ (fuel : ℕ) (address hasField : Bool) (s : Bytes) :
    reduceMembers serde (fuel + 1) address hasField s =
      (parseString (skipBlank s)).bind fun rest =>
        let key := consumed (skipBlank s) rest
        (decodeName serde key).bind fun name =>
          let kind := profileFieldKind name address
          if (skipBlank rest).head? = some 58 then
            (reduceMember serde fuel kind (skipBlank rest).tail).bind fun r =>
              afterMember serde fuel address hasField kind.isSome
                (if kind.isSome then (if hasField then [44] else []) ++ (key ++ 58 :: r.1) else [])
                r.2
          else none := by
  rw [reduceMembers]
  simp only
  cases parseString (skipBlank s) with
  | none => rfl
  | some rest =>
    simp only [Option.bind_some]
    cases decodeName serde (consumed (skipBlank s) rest) with
    | none => rfl
    | some name =>
      simp only [Option.bind_some]
      cases skipBlank rest with
      | nil => rfl
      | cons colon s =>
        simp only [List.head?_cons, Option.some.injEq, List.tail_cons]
        by_cases hcolon : colon = 58
        · rw [if_neg (not_not.2 hcolon), if_pos hcolon]
          rcases profileFieldKind name address with _ | kind
          · simp only [reduceMember]
            cases skipValue s <;> rfl
          · cases kind
            all_goals simp only [reduceMember, reduceKind]
            · cases reduceSimple .scalar s <;> rfl
            · cases reduceSimple .optional s <;> rfl
            · cases reduceSimple .strings s <;> rfl
            · cases reduceAddressArray serde fuel s <;> rfl
        · rw [if_pos hcolon, if_neg hcolon]

/-- The same on the text of a member. -/
theorem reduceMembers_member (hserde : serde.ReadsTexts) {address : Bool} {key : String}
    {w k w₁ w₂ text w' s : Bytes} (hw : Blank w) (hk : StringText key k) (hw₁ : Blank w₁)
    (hw' : Blank w') {b : UInt8} (hb : isBlank b = false) {fuel : ℕ} {value : Option Bytes}
    (hvalue : reduceMember serde fuel (profileFieldKind key address)
      (w₂ ++ (text ++ (w' ++ b :: s))) = value.map fun t => (t, w' ++ b :: s)) (hasField : Bool) :
    reduceMembers serde (fuel + 1) address hasField
        (w ++ (k ++ (w₁ ++ 58 :: (w₂ ++ (text ++ (w' ++ b :: s)))))) =
      value.bind fun t =>
        let field := (profileFieldKind key address).isSome
        let out := if field then (if hasField then [44] else []) ++ (k ++ 58 :: t) else []
        if b = 44 then
          if (skipBlank s).head? = some 125 then none
          else (reduceMembers serde fuel address (hasField || field) s).map fun r =>
            (out ++ r.1, r.2)
        else if b = 125 then some (out ++ [125], s)
        else none := by
  have hskip : skipBlank (w ++ (k ++ (w₁ ++ 58 :: (w₂ ++ (text ++ (w' ++ b :: s)))))) =
      k ++ (w₁ ++ 58 :: (w₂ ++ (text ++ (w' ++ b :: s)))) := by
    obtain ⟨k', rfl⟩ := head_stringText hk
    exact skipBlank_mark hw (by decide)
  rw [reduceMembers_succ]
  simp only [hskip, parseString_text hk, consumed_append, decodeName_text hserde hk,
    skipBlank_mark hw₁ (show isBlank 58 = false by decide), Option.bind_some, List.head?_cons,
    List.tail_cons, if_true, hvalue]
  cases value with
  | none => rfl
  | some t => simp only [Option.map_some, Option.bind_some, afterMember, skipBlank_mark hw' hb]

theorem spellsMembers_singleton {key : String} {v : Json} {k t : Bytes} (hk : StringText key k)
    (ht : Spells StringText number v t) :
    SpellsMembers StringText number [(key, v)] (k ++ 58 :: t) := by
  rw [SpellsMembers]
  exact ⟨[], k, [], [], t, [], blank_nil, hk, blank_nil, blank_nil, ht, blank_nil,
    Or.inl ⟨rfl, by simp⟩⟩

theorem spellsMembers_cons {key : String} {v : Json} {fields : List (String × Json)}
    {k t rest : Bytes} (hk : StringText key k) (ht : Spells StringText number v t)
    (hne : fields ≠ []) (hrest : SpellsMembers StringText number fields rest) :
    SpellsMembers StringText number ((key, v) :: fields) (k ++ 58 :: (t ++ 44 :: rest)) := by
  rw [SpellsMembers]
  exact ⟨[], k, [], [], t, [], blank_nil, hk, blank_nil, blank_nil, ht, blank_nil,
    Or.inr ⟨hne, rest, hrest, by simp⟩⟩

/-- The blanks before the first member. -/
theorem skipBlank_members {f : String × Json} {fields : List (String × Json)} {t : Bytes}
    (h : SpellsMembers StringText number (f :: fields) t) :
    ∃ t', SpellsMembers StringText number (f :: fields) t' ∧ t'.length ≤ t.length ∧
      ∀ s, skipBlank (t ++ s) = t' ++ s ∧ (t' ++ s).head? ≠ some 125 := by
  obtain ⟨key, v⟩ := f
  rw [SpellsMembers] at h
  obtain ⟨w, k, w₁, w₂, text, w', hw, hk, hw₁, hw₂, htext, hw', hcases⟩ := h
  obtain ⟨k', hk'⟩ := head_stringText hk
  have hskip (s : Bytes) : skipBlank (w ++ (k ++ s)) = k ++ s := by
    rw [hk']
    exact skipBlank_mark hw (by decide)
  have hhead (s : Bytes) : (k ++ s).head? ≠ some 125 := by simp [hk']
  rcases hcases with ⟨hnil, rfl⟩ | ⟨hne, rest, hrest, rfl⟩
  · refine ⟨k ++ (w₁ ++ 58 :: (w₂ ++ (text ++ w'))), ?_, by simp, fun s => ⟨?_, ?_⟩⟩
    · rw [SpellsMembers]
      exact ⟨[], k, w₁, w₂, text, w', blank_nil, hk, hw₁, hw₂, htext, hw', Or.inl ⟨hnil, rfl⟩⟩
    · rw [List.append_assoc, List.append_assoc, hskip, List.append_assoc]
    · rw [List.append_assoc]
      exact hhead _
  · refine ⟨k ++ (w₁ ++ 58 :: (w₂ ++ (text ++ (w' ++ 44 :: rest)))), ?_, by simp,
      fun s => ⟨?_, ?_⟩⟩
    · rw [SpellsMembers]
      exact ⟨[], k, w₁, w₂, text, w', blank_nil, hk, hw₁, hw₂, htext, hw',
        Or.inr ⟨hne, rest, hrest, rfl⟩⟩
    · rw [List.append_assoc, List.append_assoc, hskip, List.append_assoc]
    · rw [List.append_assoc]
      exact hhead _

theorem head_members {fields : List (String × Json)} {t : Bytes}
    (h : SpellsMembers StringText number fields t) (hne : fields ≠ []) (s : Bytes) :
    (skipBlank (t ++ s)).head? ≠ some 125 := by
  obtain ⟨f, fields, rfl⟩ := List.exists_cons_of_ne_nil hne
  obtain ⟨t', -, -, hskip⟩ := skipBlank_members h
  rw [(hskip s).1]
  exact (hskip s).2

/-- What is written for what is kept. -/
def Renders (number : Octets → ℤ ⊕ ℤ × ℤ) : Option Json → Option Bytes → Prop
  | none, none => True
  | some v, some t => Spells StringText number v t
  | _, _ => False

/-- The same for members; nothing is written for none. -/
def RendersMembers (number : Octets → ℤ ⊕ ℤ × ℤ) :
    Option (List (String × Json)) → Option Bytes → Prop
  | none, none => True
  | some fields, some t => SpellsMembers StringText number fields t ∧ (fields = [] ↔ t = [])
  | _, _ => False

/-- The filter of a field writes what is kept of its value. -/
def Filters (serde : SerdeJson) (number : Octets → ℤ ⊕ ℤ × ℤ) (kind : ProfileFieldKind)
    (v : Json) (kept : Option Json) : Prop :=
  ∀ t, Spells StringText number v t → ∃ out, Renders number kept out ∧
    ∀ w s fuel, Blank w → Ends s → 2 * t.length + 2 ≤ fuel →
      reduceKind serde fuel kind (w ++ (t ++ s)) = out.map fun t => (t, s)

/-- The member comes out, and what comes after it. -/
def joinMember (k : Bytes) (value rest : Option Bytes) : Option Bytes :=
  value.bind fun t => rest.map fun r => k ++ 58 :: (t ++ if r = [] then [] else 44 :: r)

theorem rendersMembers_join {key : String} {k : Bytes} (hk : StringText key k) {kept : Option Json}
    {value : Option Bytes} (hvalue : Renders number kept value)
    {fields : Option (List (String × Json))} {rest : Option Bytes}
    (hrest : RendersMembers number fields rest) :
    RendersMembers number (kept.bind fun v => fields.map fun r => (key, v) :: r)
      (joinMember k value rest) := by
  rcases kept with _ | v <;> rcases value with _ | t
  · trivial
  · exact hvalue.elim
  · exact hvalue.elim
  rcases fields with _ | fields <;> rcases rest with _ | r
  · trivial
  · exact hrest.elim
  · exact hrest.elim
  obtain ⟨hmembers, hnil⟩ := hrest
  refine ⟨?_, by simp⟩
  by_cases hfields : fields = []
  · have hr := hnil.1 hfields
    subst hfields hr
    simpa using spellsMembers_singleton hk hvalue
  · have hr : r ≠ [] := fun h => hfields (hnil.2 h)
    simp only [if_neg hr]
    exact spellsMembers_cons hk hvalue hfields hmembers

theorem rendersMembers_nil : RendersMembers number (some []) (some []) := by
  refine ⟨?_, iff_of_true rfl rfl⟩
  simp only [SpellsMembers]
  exact blank_nil

/-- After a comma the rest of the members has one of its own. -/
def written (hasField : Bool) (t : Bytes) : Bytes := if hasField ∧ t ≠ [] then 44 :: t else t

theorem reduceMembers_members (hserde : serde.ReadsTexts) {address : Bool}
    {keep : ProfileFieldKind → Json → Option Json} :
    ∀ (fields : List (String × Json)) {t : Bytes}, SpellsMembers StringText number fields t →
      fields ≠ [] → depthFields fields ≤ goMaxJsonNestingDepth →
        (∀ f ∈ fields, ∀ kind, profileFieldKind f.1 address = some kind →
          Filters serde number kind f.2 (keep kind f.2)) →
          ∃ out, RendersMembers number (keepFields address keep fields) out ∧
            ∀ hasField s fuel, 2 * t.length + 2 ≤ fuel →
              reduceMembers serde fuel address hasField (t ++ 125 :: s) =
                out.map fun t => (written hasField t ++ [125], s)
  | [], _, _, hne, _, _ => absurd rfl hne
  | (key, v) :: fields, t, ht, _, hdepth, hkeep => by
      rw [SpellsMembers] at ht
      rw [depthFields] at hdepth
      obtain ⟨w, k, w₁, w₂, text, w', hw, hk, hw₁, hw₂, htext, hw', hcases⟩ := ht
      cases hkind : profileFieldKind key address with
      | none =>
        have hvalue (s : Bytes) (fuel : ℕ) (hs : Ends s) :
            reduceMember serde fuel (profileFieldKind key address) (w₂ ++ (text ++ s)) =
              (some text).map fun t => (t, s) := by
          rw [hkind]
          exact skipValue_spells hw₂ htext hs (by omega)
        rcases hcases with ⟨rfl, rfl⟩ | ⟨hne, rest, hrest, rfl⟩
        · refine ⟨some [], ?_, fun hasField s fuel hfuel => ?_⟩
          · simpa only [keepFields, hkind] using rendersMembers_nil
          obtain ⟨fuel, rfl⟩ : ∃ n, fuel = n + 1 := ⟨fuel - 1, by omega⟩
          simp only [List.append_assoc, List.cons_append]
          rw [reduceMembers_member hserde hw hk hw₁ hw' (b := 125) (by decide)
            (hvalue _ fuel (ends_mark hw' (by simp))) hasField, hkind]
          simp [written]
        · obtain ⟨out, hout, hmore⟩ := reduceMembers_members hserde fields hrest hne (by omega)
            fun f hf => hkeep f (List.mem_cons_of_mem _ hf)
          refine ⟨out, ?_, fun hasField s fuel hfuel => ?_⟩
          · simpa only [keepFields, hkind] using hout
          obtain ⟨fuel, rfl⟩ : ∃ n, fuel = n + 1 := ⟨fuel - 1, by omega⟩
          simp only [List.append_assoc, List.cons_append]
          rw [reduceMembers_member hserde hw hk hw₁ hw' (b := 44) (by decide)
            (hvalue _ fuel (ends_mark hw' (by simp))) hasField, hkind]
          simp only [Option.bind_some, if_true, if_neg (head_members hrest hne _),
            Option.isSome_none, Bool.or_false, hmore hasField s fuel (by simp at hfuel; omega)]
          cases out <;> simp
      | some kind =>
        obtain ⟨value, hvalue, hrun⟩ := hkeep _ List.mem_cons_self kind hkind text htext
        have hvalue' (s : Bytes) (fuel : ℕ) (hs : Ends s) (hfuel : 2 * text.length + 2 ≤ fuel) :
            reduceMember serde fuel (profileFieldKind key address) (w₂ ++ (text ++ s)) =
              value.map fun t => (t, s) := by
          rw [hkind]
          exact hrun w₂ s fuel hw₂ hs hfuel
        rcases hcases with ⟨rfl, rfl⟩ | ⟨hne, rest, hrest, rfl⟩
        · refine ⟨joinMember k value (some []), ?_, fun hasField s fuel hfuel => ?_⟩
          · simpa only [keepFields, hkind] using rendersMembers_join hk hvalue rendersMembers_nil
          obtain ⟨fuel, rfl⟩ : ∃ n, fuel = n + 1 := ⟨fuel - 1, by omega⟩
          simp only [List.append_assoc, List.cons_append]
          rw [reduceMembers_member hserde hw hk hw₁ hw' (b := 125) (by decide)
            (hvalue' _ fuel (ends_mark hw' (by simp)) (by simp at hfuel; omega)) hasField, hkind]
          cases value <;> cases hasField <;> simp [joinMember, written]
        · obtain ⟨out, hout, hmore⟩ := reduceMembers_members hserde fields hrest hne (by omega)
            fun f hf => hkeep f (List.mem_cons_of_mem _ hf)
          refine ⟨joinMember k value out, ?_, fun hasField s fuel hfuel => ?_⟩
          · simpa only [keepFields, hkind] using rendersMembers_join hk hvalue hout
          obtain ⟨fuel, rfl⟩ : ∃ n, fuel = n + 1 := ⟨fuel - 1, by omega⟩
          simp only [List.append_assoc, List.cons_append]
          rw [reduceMembers_member hserde hw hk hw₁ hw' (b := 44) (by decide)
            (hvalue' _ fuel (ends_mark hw' (by simp)) (by simp at hfuel; omega)) hasField, hkind]
          simp only [if_true, if_neg (head_members hrest hne _), Option.isSome_some, Bool.or_true,
            hmore true s fuel (by simp at hfuel; omega)]
          cases value with
          | none => rfl
          | some t =>
            cases out with
            | none => rfl
            | some r =>
              by_cases hr : r = []
              · cases hasField <;> simp [joinMember, written, hr]
              · cases hasField <;> simp [joinMember, written, hr]

theorem reduceObject_spells (hserde : serde.ReadsTexts) (address : Bool)
    (keep : ProfileFieldKind → Json → Option Json) {fields : List (String × Json)} {t : Bytes}
    (ht : Spells StringText number (.object fields) t)
    (hdepth : depthFields fields ≤ goMaxJsonNestingDepth)
    (hkeep : ∀ f ∈ fields, ∀ kind, profileFieldKind f.1 address = some kind →
      Filters serde number kind f.2 (keep kind f.2)) :
    ∃ out, Renders number ((keepFields address keep fields).map .object) out ∧
      ∀ s fuel, 2 * t.length + 2 ≤ fuel →
        reduceObject serde fuel address (t ++ s) = out.map fun t => (t, s) := by
  simp only [Spells] at ht
  obtain ⟨inner, hinner, rfl⟩ := ht
  cases fields with
  | nil =>
    simp only [SpellsMembers] at hinner
    refine ⟨some [123, 125], ?_, fun s fuel hfuel => ?_⟩
    · simp only [keepFields, Option.map_some, Renders, Spells, SpellsMembers]
      exact ⟨[], blank_nil, rfl⟩
    · obtain ⟨fuel, rfl⟩ : ∃ n, fuel = n + 1 := ⟨fuel - 1, by omega⟩
      have hskip : skipBlank (inner ++ 125 :: s) = 125 :: s := skipBlank_mark hinner (by decide)
      simp [reduceObject, hskip]
  | cons f fields =>
    obtain ⟨inner', hinner', hlength, hblank⟩ := skipBlank_members hinner
    obtain ⟨out, hout, hmembers⟩ := reduceMembers_members hserde (f :: fields) hinner' (by simp)
      hdepth hkeep
    refine ⟨out.map fun t => 123 :: (t ++ [125]), ?_, fun s fuel hfuel => ?_⟩
    · generalize keepFields address keep (f :: fields) = kept at hout ⊢
      rcases kept with _ | kept <;> rcases out with _ | t
      · trivial
      · exact hout.elim
      · exact hout.elim
      · simp only [Option.map_some, Renders, Spells]
        exact ⟨t, hout.1, rfl⟩
    · obtain ⟨fuel, rfl⟩ : ∃ n, fuel = n + 1 := ⟨fuel - 1, by omega⟩
      obtain ⟨hskip, hhead⟩ := hblank (125 :: s)
      have hrun := hmembers false s fuel (by simp at hfuel; omega)
      simp only [List.cons_append, List.append_assoc, List.nil_append, reduceObject,
        List.head?_cons, List.tail_cons, hskip, ne_eq, not_true, if_false, if_neg hhead, hrun]
      cases out <;> simp [written]

theorem filters_simple {kind : ProfileFieldKind} (hkind : kind ≠ .addresses) {v : Json}
    (hdepth : v.depth ≤ goMaxJsonNestingDepth) :
    Filters serde number kind v (keepSimple kind v) := by
  intro t ht
  refine ⟨if fitsSimple kind v then some t else none, ?_, fun w s fuel hw hs _ => ?_⟩
  · rw [keepSimple]
    split_ifs
    · exact ht
    · trivial
  · have hreduce : reduceKind serde fuel kind (w ++ (t ++ s)) =
        reduceSimple kind (w ++ (t ++ s)) := by
      cases kind with
      | addresses => exact absurd rfl hkind
      | _ => rfl
    rw [hreduce, reduceSimple_spells hw ht hs hdepth]
    split_ifs <;> rfl

/-- An address has no addresses. -/
theorem profileFieldKind_address {name : String} {kind : ProfileFieldKind}
    (h : profileFieldKind name true = some kind) : kind ≠ .addresses := by
  unfold profileFieldKind at h
  simp only [if_true] at h
  split_ifs at h <;> cases h <;> decide

theorem depth_le_depthFields {f : String × Json} {fields : List (String × Json)} (h : f ∈ fields) :
    f.2.depth ≤ depthFields fields := by
  induction fields with
  | nil => cases h
  | cons g fields ih =>
    obtain ⟨name, v⟩ := g
    rw [depthFields]
    rcases List.mem_cons.1 h with rfl | h
    · exact le_max_left _ _
    · exact (ih h).trans (le_max_right _ _)

/-- One element of the array of addresses. -/
def reduceAddress (serde : SerdeJson) (fuel : ℕ) (s : Bytes) : Option (Bytes × Bytes) :=
  if s.head? = some 123 then reduceObject serde fuel true s
  else if s.head? = some 110 then (skipNull s).map fun rest => (Utf8.encode "null", rest)
  else none

theorem reduceAddress_spells (hserde : serde.ReadsTexts) {v : Json} {t : Bytes}
    (ht : Spells StringText number v t) (hdepth : v.depth ≤ goMaxJsonNestingDepth) :
    ∃ out, Renders number (keepAddress v) out ∧ ∀ s fuel, Ends s → 2 * t.length + 2 ≤ fuel →
      reduceAddress serde fuel (t ++ s) = out.map fun t => (t, s) := by
  have hnumber {b : UInt8} (hb : b = 45 ∨ isDigit b = true) : b ≠ 123 ∧ b ≠ 110 := by
    rcases hb with rfl | hb
    · decide
    · exact ⟨isDigit_ne hb rfl, isDigit_ne hb rfl⟩
  obtain ⟨b, t', rfl, hb⟩ := head_spells ht
  have hother (hb : b ≠ 123 ∧ b ≠ 110) (hv : keepAddress v = none) :
      ∃ out, Renders number (keepAddress v) out ∧ ∀ s fuel, Ends s →
        2 * (b :: t').length + 2 ≤ fuel →
          reduceAddress serde fuel (b :: t' ++ s) = out.map fun t => (t, s) := by
    refine ⟨none, by rw [hv]; trivial, fun s fuel _ _ => ?_⟩
    rw [reduceAddress, List.cons_append, List.head?_cons, if_neg (by simpa using hb.1),
      if_neg (by simpa using hb.2)]
    rfl
  cases v with
  | null =>
    refine ⟨some (Utf8.encode "null"), ?_, fun s fuel hs _ => ?_⟩
    · simp only [keepAddress, Renders, Spells]
    · have hnull := skipNull_spells ht hs rfl
      cases hb
      rw [reduceAddress, hnull]
      rfl
  | object fields =>
    rw [Json.depth] at hdepth
    obtain ⟨out, hout, hrun⟩ := reduceObject_spells hserde true keepSimple ht
      (by omega) fun f hf kind hkind => filters_simple (profileFieldKind_address hkind)
        ((depth_le_depthFields hf).trans (by omega))
    refine ⟨out, hout, fun s fuel _ hfuel => ?_⟩
    cases hb
    rw [reduceAddress, ← hrun s fuel hfuel]
    rfl
  | bool b' => exact hother (by rcases hb with rfl | rfl <;> decide) rfl
  | int n => exact hother (hnumber hb) rfl
  | float mantissa exponent => exact hother (hnumber hb) rfl
  | string text => exact hother (by cases hb; decide) rfl
  | array items => exact hother (by cases hb; decide) rfl

/-- The same for the items of an array, one at least. -/
def RendersItems (number : Octets → ℤ ⊕ ℤ × ℤ) : Option (List Json) → Option Bytes → Prop
  | none, none => True
  | some items, some t => items ≠ [] ∧ SpellsItems StringText number items t
  | _, _ => False

theorem rendersItems_singleton {kept : Option Json} {out : Option Bytes}
    (h : Renders number kept out) : RendersItems number (kept.map fun v => [v]) out := by
  rcases kept with _ | v <;> rcases out with _ | t
  · trivial
  · exact h.elim
  · exact h.elim
  · refine ⟨by simp, ?_⟩
    simp only [SpellsItems]
    exact ⟨[], t, [], blank_nil, h, blank_nil, Or.inl ⟨trivial, by simp⟩⟩

theorem rendersItems_cons {kept : Option Json} {out : Option Bytes} (h : Renders number kept out)
    {items : Option (List Json)} {rest : Option Bytes} (hrest : RendersItems number items rest) :
    RendersItems number (kept.bind fun v => items.map fun r => v :: r)
      (out.bind fun t => rest.map fun r => t ++ 44 :: r) := by
  rcases kept with _ | v <;> rcases out with _ | t
  · trivial
  · exact h.elim
  · exact h.elim
  rcases items with _ | items <;> rcases rest with _ | r
  · trivial
  · exact hrest.elim
  · exact hrest.elim
  refine ⟨by simp, ?_⟩
  rw [SpellsItems]
  exact ⟨[], t, [], blank_nil, h, blank_nil, Or.inr ⟨hrest.1, r, hrest.2, by simp⟩⟩

/-- The loop over the addresses, after one. -/
def afterAddress (serde : SerdeJson) (fuel : ℕ) (out s : Bytes) : Option (Bytes × Bytes) :=
  match skipBlank s with
  | [] => none
  | b :: s =>
      if b = 44 then
        if (skipBlank s).head? = some 93 then none
        else (reduceAddresses serde fuel false s).map fun r => (out ++ r.1, r.2)
      else if b = 93 then some (out ++ [93], s)
      else none

/-- One turn of the loop over the addresses. -/
theorem reduceAddresses_succ (fuel : ℕ) (first : Bool) (s : Bytes) :
    reduceAddresses serde (fuel + 1) first s =
      (reduceAddress serde fuel (skipBlank s)).bind fun r =>
        afterAddress serde fuel ((if first then [] else [44]) ++ r.1) r.2 := by
  rw [reduceAddresses]
  simp only [reduceAddress]
  cases if (skipBlank s).head? = some 123 then reduceObject serde fuel true (skipBlank s)
    else if (skipBlank s).head? = some 110 then
      (skipNull (skipBlank s)).map fun rest => (Utf8.encode "null", rest)
    else none with
  | none => rfl
  | some r => rfl

theorem reduceAddresses_items (hserde : serde.ReadsTexts) :
    ∀ (items : List Json) {t : Bytes}, SpellsItems StringText number items t → items ≠ [] →
      depthItems items ≤ goMaxJsonNestingDepth →
        ∃ out, RendersItems number (items.mapM keepAddress) out ∧
          ∀ first s fuel, 2 * t.length + 4 ≤ fuel →
            reduceAddresses serde fuel first (t ++ 93 :: s) =
              out.map fun t => ((if first then t else 44 :: t) ++ [93], s)
  | [], _, _, hne, _ => absurd rfl hne
  | v :: items, t, ht, _, hdepth => by
      rw [SpellsItems] at ht
      rw [depthItems] at hdepth
      obtain ⟨w, text, w', hw, htext, hw', hcases⟩ := ht
      obtain ⟨item, hitem, hrun⟩ := reduceAddress_spells hserde htext (by omega)
      rcases hcases with ⟨rfl, rfl⟩ | ⟨hne, rest, hrest, rfl⟩
      · refine ⟨item, ?_, fun first s fuel hfuel => ?_⟩
        · have hkept := rendersItems_singleton hitem
          cases hv : keepAddress v <;> simpa [hv] using hkept
        obtain ⟨fuel, rfl⟩ : ∃ n, fuel = n + 1 := ⟨fuel - 1, by omega⟩
        rw [List.append_assoc, List.append_assoc, reduceAddresses_succ, skipBlank_spells htext hw,
          hrun _ fuel (ends_mark hw' (by simp)) (by simp at hfuel; omega)]
        cases item with
        | none => rfl
        | some t =>
          simp only [Option.map_some, Option.bind_some, afterAddress,
            skipBlank_mark hw' (show isBlank 93 = false by decide)]
          cases first <;> simp
      · obtain ⟨out, hout, hmore⟩ := reduceAddresses_items hserde items hrest hne (by omega)
        refine ⟨item.bind fun t => out.map fun r => t ++ 44 :: r, ?_,
          fun first s fuel hfuel => ?_⟩
        · have hkept := rendersItems_cons hitem hout
          cases hv : keepAddress v <;> cases hrest : items.mapM keepAddress <;>
            simpa [hv, hrest] using hkept
        obtain ⟨fuel, rfl⟩ : ∃ n, fuel = n + 1 := ⟨fuel - 1, by omega⟩
        rw [List.append_assoc, List.append_assoc, List.append_assoc, List.cons_append,
          reduceAddresses_succ, skipBlank_spells htext hw,
          hrun _ fuel (ends_mark hw' (by simp)) (by simp at hfuel; omega)]
        cases item with
        | none => rfl
        | some t =>
          simp only [Option.map_some, Option.bind_some, afterAddress,
            skipBlank_mark hw' (show isBlank 44 = false by decide), if_true,
            if_neg (head_items hrest hne _), hmore false s fuel (by simp at hfuel; omega)]
          cases out <;> cases first <;> simp

theorem reduceAddressArray_spells (hserde : serde.ReadsTexts) {v : Json}
    (hdepth : v.depth ≤ goMaxJsonNestingDepth) :
    Filters serde number .addresses v (keepKind .addresses v) := by
  intro t ht
  have hnumber {b : UInt8} (hb : b = 45 ∨ isDigit b = true) : b ≠ 110 ∧ b ≠ 91 := by
    rcases hb with rfl | hb
    · decide
    · exact ⟨isDigit_ne hb rfl, isDigit_ne hb rfl⟩
  have hskip {w : Bytes} (hw : Blank w) (s : Bytes) : skipBlank (w ++ (t ++ s)) = t ++ s :=
    skipBlank_spells ht hw s
  obtain ⟨b, t', rfl, hb⟩ := head_spells ht
  have hother (hb : b ≠ 110 ∧ b ≠ 91) (hv : keepKind .addresses v = none) :
      ∃ out, Renders number (keepKind .addresses v) out ∧ ∀ w s fuel, Blank w → Ends s →
        2 * (b :: t').length + 2 ≤ fuel →
          reduceKind serde fuel .addresses (w ++ (b :: t' ++ s)) = out.map fun t => (t, s) := by
    refine ⟨none, by rw [hv]; trivial, fun w s fuel hw _ hfuel => ?_⟩
    obtain ⟨fuel, rfl⟩ : ∃ n, fuel = n + 1 := ⟨fuel - 1, by omega⟩
    rw [reduceKind, reduceAddressArray]
    simp only [hskip hw]
    rw [List.cons_append, List.head?_cons, if_neg (by simpa using hb.1),
      if_pos (by simpa using hb.2)]
    rfl
  cases v with
  | null =>
    refine ⟨some (Utf8.encode "null"), ?_, fun w s fuel hw hs hfuel => ?_⟩
    · simp only [keepKind, Renders, Spells]
    · obtain ⟨fuel, rfl⟩ : ∃ n, fuel = n + 1 := ⟨fuel - 1, by omega⟩
      have hnull := skipNull_spells ht hs rfl
      cases hb
      rw [reduceKind, reduceAddressArray]
      have hhead : (110 :: t' ++ s).head? = some 110 := rfl
      simp only [hskip hw]
      rw [if_pos hhead, hnull]
      rfl
  | bool b' => exact hother (by rcases hb with rfl | rfl <;> decide) rfl
  | int n => exact hother (hnumber hb) rfl
  | float mantissa exponent => exact hother (hnumber hb) rfl
  | string text => exact hother (by cases hb; decide) rfl
  | object fields => exact hother (by cases hb; decide) rfl
  | array items =>
    cases hb
    rw [Json.depth] at hdepth
    simp only [Spells] at ht
    obtain ⟨inner, hinner, hinner'⟩ := ht
    obtain rfl : t' = inner ++ [93] := by simpa using hinner'
    cases items with
    | nil =>
      simp only [SpellsItems] at hinner
      refine ⟨some [91, 93], ?_, fun w s fuel hw hs hfuel => ?_⟩
      · simp only [keepKind, List.mapM_nil, Option.pure_def, Option.map_some, Renders, Spells,
          SpellsItems]
        exact ⟨[], blank_nil, rfl⟩
      · obtain ⟨fuel, rfl⟩ : ∃ n, fuel = n + 1 := ⟨fuel - 1, by omega⟩
        have hskip' : skipBlank (inner ++ 93 :: s) = 93 :: s := skipBlank_mark hinner (by decide)
        rw [reduceKind, reduceAddressArray]
        simp only [hskip hw]
        simp [hskip']
    | cons v items =>
      obtain ⟨inner', hinner', hlength, hblank⟩ := skipBlank_items hinner
      obtain ⟨out, hout, hitems⟩ := reduceAddresses_items hserde (v :: items) hinner' (by simp)
        (by omega)
      refine ⟨out.map fun t => 91 :: (t ++ [93]), ?_, fun w s fuel hw hs hfuel => ?_⟩
      · rw [keepKind]
        generalize (v :: items).mapM keepAddress = kept at hout ⊢
        rcases kept with _ | kept <;> rcases out with _ | t
        · trivial
        · exact hout.elim
        · exact hout.elim
        · simp only [Option.map_some, Renders, Spells]
          exact ⟨t, hout.2, rfl⟩
      · obtain ⟨fuel, rfl⟩ : ∃ n, fuel = n + 1 := ⟨fuel - 1, by omega⟩
        obtain ⟨hskip', hhead⟩ := hblank (93 :: s)
        have hrun := hitems true s fuel (by simp at hfuel; omega)
        rw [reduceKind, reduceAddressArray]
        simp only [hskip hw]
        simp only [List.cons_append, List.append_assoc, List.nil_append, List.head?_cons,
          List.tail_cons, hskip', if_neg hhead, hrun]
        cases out <;> simp

theorem filters_kind (hserde : serde.ReadsTexts) (kind : ProfileFieldKind) {v : Json}
    (hdepth : v.depth ≤ goMaxJsonNestingDepth) :
    Filters serde number kind v (keepKind kind v) := by
  cases kind with
  | addresses => exact reduceAddressArray_spells hserde hdepth
  | scalar => exact filters_simple (by decide) hdepth
  | optional => exact filters_simple (by decide) hdepth
  | strings => exact filters_simple (by decide) hdepth

/-- The filter takes a text to a text of what is kept, and fails where nothing is. -/
theorem reduceProfileJson_document (hserde : serde.ReadsTexts) {v : Json} {s : Bytes}
    (h : SpellsDocument StringText number v s) (hdepth : v.depth ≤ goMaxJsonNestingDepth) :
    Renders number (keepProfile v) (reduceProfileJson serde s) := by
  obtain ⟨w, text, w', hw, htext, hw', rfl⟩ := h
  have hend : atEnd w' = true := by
    have hskip := skipBlank_append (s := []) hw' (by simp)
    rw [List.append_nil] at hskip
    rw [atEnd, hskip]
    rfl
  have hnumber {b : UInt8} (hb : b = 45 ∨ isDigit b = true) : b ≠ 110 ∧ b ≠ 123 := by
    rcases hb with rfl | hb
    · decide
    · exact ⟨isDigit_ne hb rfl, isDigit_ne hb rfl⟩
  have hskip := skipBlank_spells htext hw w'
  unfold reduceProfileJson
  simp only [hskip]
  obtain ⟨b, t', rfl, hb⟩ := head_spells htext
  have hother (hb : b ≠ 110 ∧ b ≠ 123) :
      ((if (b :: t' ++ w').head? = some 110 then
        (skipNull (b :: t' ++ w')).map fun rest => (Utf8.encode "null", rest)
      else if (b :: t' ++ w').head? = some 123 then
        reduceObject serde (2 * (b :: t' ++ w').length + 2) false (b :: t' ++ w')
      else none).filter fun r => atEnd r.2).map Prod.fst = none := by
    rw [List.cons_append, List.head?_cons, if_neg (by simpa using hb.1),
      if_neg (by simpa using hb.2)]
    rfl
  cases v with
  | null =>
    have hnull := skipNull_spells htext (ends_blank hw') rfl
    cases hb
    have hhead : (110 :: t' ++ w').head? = some 110 := rfl
    rw [if_pos hhead, hnull, Option.map_some, Option.filter_some, if_pos hend, Option.map_some]
    simp only [keepProfile, Renders, Spells]
  | object fields =>
    rw [Json.depth] at hdepth
    obtain ⟨out, hout, hrun⟩ := reduceObject_spells hserde false keepKind
      htext (by omega) fun f hf kind _ => filters_kind hserde kind
        ((depth_le_depthFields hf).trans (by omega))
    cases hb
    have hhead : (123 :: t' ++ w').head? = some 123 := rfl
    rw [if_neg (by rw [hhead]; decide), if_pos hhead, hrun w' _ (by simp)]
    cases out with
    | none => exact hout
    | some t =>
      rw [Option.map_some, Option.filter_some, if_pos hend, Option.map_some]
      exact hout
  | bool b' =>
    rw [hother (by rcases hb with rfl | rfl <;> decide)]
    trivial
  | int n =>
    rw [hother (hnumber hb)]
    trivial
  | float mantissa exponent =>
    rw [hother (hnumber hb)]
    trivial
  | string text =>
    rw [hother (by cases hb; decide)]
    trivial
  | array items =>
    rw [hother (by cases hb; decide)]
    trivial

end Filter

end EraseMe.Identity.Secrets
