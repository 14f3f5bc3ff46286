import EraseMe.Identity.ProfileFilter
import EraseMe.Library.Result

/-!
# A text is decoded as its value

What the filter keeps of a value is read as the value itself: the members it drops are not read, and
it stops where the record would (`readRecord_keepProfile`).  So `decodeGoProfileJson` reads a JSON
text of any strings, however deep up to the bound, as the record of its value
(`decodeGoProfileJson_document`).
-/

namespace EraseMe.Identity.Secrets

open Json

/-! ### What is kept is read as before -/

/-- The step of `readRecord` over the members. -/
theorem foldlM_keepFields {ρ : Type} {address : Bool}
    {keep : ProfileFieldKind → Json → Option Json} {readField : ρ → String → Json → Option ρ}
    (hunknown : ∀ r name v, profileFieldKind name address = none →
      readField r (foldName name) v = some r)
    (hknown : ∀ r name v kind, profileFieldKind name address = some kind →
      (keep kind v).bind (readField r (foldName name)) = readField r (foldName name) v)
    (fields : List (String × Json)) (r : ρ) :
    ((keepFields address keep fields).bind fun kept =>
      kept.foldlM (fun r f => readField r (foldName f.1) f.2) r) =
        fields.foldlM (fun r f => readField r (foldName f.1) f.2) r := by
  induction fields generalizing r with
  | nil => rfl
  | cons f fields ih =>
    obtain ⟨name, v⟩ := f
    rw [List.foldlM_cons, keepFields]
    cases hkind : profileFieldKind name address with
    | none =>
      simp only [hunknown r name v hkind, ih r]
      rfl
    | some kind =>
      simp only [← hknown r name v kind hkind]
      cases keep kind v with
      | none => rfl
      | some v' =>
        simp only [Option.bind_some, Option.bind_eq_bind, ← ih]
        cases keepFields address keep fields with
        | none => cases readField r (foldName name) v' <;> rfl
        | some kept => rfl

theorem readRecord_keepFields {ρ : Type} {address : Bool}
    {keep : ProfileFieldKind → Json → Option Json} {readField : ρ → String → Json → Option ρ}
    (hunknown : ∀ r name v, profileFieldKind name address = none →
      readField r (foldName name) v = some r)
    (hknown : ∀ r name v kind, profileFieldKind name address = some kind →
      (keep kind v).bind (readField r (foldName name)) = readField r (foldName name) v)
    (fields : List (String × Json)) (r : ρ) :
    ((keepFields address keep fields).map .object).bind (readRecord r readField) =
      readRecord r readField (.object fields) := by
  rw [Option.bind_map, readRecord, ← foldlM_keepFields hunknown hknown]
  rfl

theorem readScalar_eq_none {v : Json} (h : isText v = false) (target : String) :
    readScalar target v = none := by
  cases v <;> first | rfl | cases h

theorem readOptional_eq_none {v : Json} (h : isText v = false) : readOptional v = none := by
  cases v <;> first | rfl | cases h

theorem readStrings_eq_none {v : Json} (h : fitsSimple .strings v = false) :
    readStrings v = none := by
  cases v with
  | array items =>
    rw [readStrings]
    rw [fitsSimple] at h
    induction items with
    | nil => cases h
    | cons v items ih =>
      rw [List.all_cons, Bool.and_eq_false_iff] at h
      rw [List.mapM_cons]
      rcases h with h | h
      · rw [readScalar_eq_none h]
        rfl
      · rw [ih h]
        cases readScalar "" v <;> rfl
  | null => cases h
  | _ => rfl

/-! ### The fields of an address -/

theorem addressField_unknown (r : ProfileAddress) (name : String) (v : Json)
    (h : profileFieldKind name true = none) : addressField r (foldName name) v = some r := by
  unfold profileFieldKind at h
  simp only [if_true, List.mem_cons, List.not_mem_nil, or_false] at h
  generalize foldName name = n at h ⊢
  split_ifs at h with h1 h2
  simp only [not_or] at h1 h2
  unfold addressField
  rw [if_neg h1.1, if_neg h1.2.1, if_neg h1.2.2.1, if_neg h1.2.2.2, if_neg h2.1, if_neg h2.2.1,
    if_neg h2.2.2]

theorem addressField_known (r : ProfileAddress) (name : String) (v : Json)
    (kind : ProfileFieldKind) (h : profileFieldKind name true = some kind) :
    (keepSimple kind v).bind (addressField r (foldName name)) =
      addressField r (foldName name) v := by
  unfold keepSimple
  by_cases hfits : fitsSimple kind v = true
  · rw [if_pos hfits, Option.bind_some]
  rw [if_neg hfits, Option.bind_none]
  rw [Bool.not_eq_true] at hfits
  unfold profileFieldKind at h
  simp only [if_true, List.mem_cons, List.not_mem_nil, or_false] at h
  generalize foldName name = n at h ⊢
  split_ifs at h with h1 h2
  · cases h
    have hnone := readScalar_eq_none (v := v) hfits
    rcases h1 with rfl | rfl | rfl | rfl <;> simp [addressField, hnone]
  · cases h
    have hnone := readOptional_eq_none (v := v) hfits
    rcases h2 with rfl | rfl | rfl <;> simp [addressField, hnone]

theorem readRecord_keepAddress (v : Json) :
    (keepAddress v).bind (readRecord emptyAddress addressField) =
      readRecord emptyAddress addressField v := by
  cases v with
  | object fields => exact readRecord_keepFields addressField_unknown addressField_known fields _
  | _ => rfl

theorem readAddresses_keepKind (v : Json) :
    (keepKind .addresses v).bind readAddresses = readAddresses v := by
  cases v with
  | array items =>
    rw [keepKind, Option.bind_map, readAddresses]
    induction items with
    | nil => rfl
    | cons v items ih =>
      rw [List.mapM_cons, List.mapM_cons, ← readRecord_keepAddress, ← ih]
      cases keepAddress v with
      | none => rfl
      | some v' =>
        cases items.mapM keepAddress with
        | none => cases readRecord emptyAddress addressField v' <;> simp
        | some kept => simp [readAddresses]
  | _ => rfl

/-! ### The fields of a profile -/

theorem profileField_unknown (r : Profile) (name : String) (v : Json)
    (h : profileFieldKind name false = none) : profileField r (foldName name) v = some r := by
  unfold profileFieldKind at h
  simp only [Bool.false_eq_true, if_false, List.mem_cons, List.not_mem_nil, or_false] at h
  generalize foldName name = n at h ⊢
  split_ifs at h with h1 h2 h3 h4
  simp only [not_or] at h2
  unfold profileField
  rw [if_neg h1, if_neg h2.1, if_neg h3, if_neg h4, if_neg h2.2.1, if_neg h2.2.2.1,
    if_neg h2.2.2.2]

theorem profileField_known (r : Profile) (name : String) (v : Json) (kind : ProfileFieldKind)
    (h : profileFieldKind name false = some kind) :
    (keepKind kind v).bind (profileField r (foldName name)) =
      profileField r (foldName name) v := by
  unfold profileFieldKind at h
  simp only [Bool.false_eq_true, if_false, List.mem_cons, List.not_mem_nil, or_false] at h
  generalize foldName name = n at h ⊢
  have hsimple (hkind : keepKind kind v = keepSimple kind v)
      (hnone : fitsSimple kind v = false → profileField r n v = none) :
      (keepKind kind v).bind (profileField r n) = profileField r n v := by
    rw [hkind, keepSimple]
    by_cases hfits : fitsSimple kind v = true
    · rw [if_pos hfits, Option.bind_some]
    · rw [if_neg hfits, Option.bind_none, hnone (Bool.eq_false_iff.2 hfits)]
  split_ifs at h with h1 h2 h3 h4
  · cases h
    subst h1
    exact hsimple rfl fun hfits => by simp [profileField, readScalar_eq_none hfits]
  · cases h
    refine hsimple rfl fun hfits => ?_
    have hnone := readStrings_eq_none hfits
    rcases h2 with rfl | rfl | rfl | rfl <;> simp [profileField, hnone]
  · cases h
    subst h3
    exact hsimple rfl fun hfits => by simp [profileField, readOptional_eq_none hfits]
  · cases h
    subst h4
    have hfield (v : Json) : profileField r "addresses" v =
        (readAddresses v).map fun x => { r with addresses := x } := by simp [profileField]
    rw [hfield, ← readAddresses_keepKind]
    cases keepKind .addresses v with
    | none => rfl
    | some v' => exact hfield v'

/-- What is kept of a profile is read as the profile. -/
theorem readRecord_keepProfile (v : Json) :
    (keepProfile v).bind (readRecord { fullName := "" } profileField) =
      readRecord { fullName := "" } profileField v := by
  cases v with
  | object fields => exact readRecord_keepFields profileField_unknown profileField_known fields _
  | _ => rfl

/-! ### What is kept is not deep -/

/-- Without numbers, and so many brackets deep at most. -/
def Shallow (n : ℕ) (v : Json) : Prop := v.depth ≤ n ∧ Numberless v

theorem shallow_array {n : ℕ} {items : List Json} (h : ∀ v ∈ items, Shallow n v) :
    Shallow (n + 1) (.array items) := by
  simp only [Shallow, Json.depth, Numberless, Nat.add_le_add_iff_right]
  induction items with
  | nil => simp [depthItems, NumberlessItems]
  | cons v items ih =>
    rw [List.forall_mem_cons] at h
    obtain ⟨hdepth, hnumbers⟩ := ih h.2
    rw [depthItems, NumberlessItems]
    exact ⟨max_le h.1.1 hdepth, h.1.2, hnumbers⟩

theorem shallow_object {n : ℕ} {fields : List (String × Json)} (h : ∀ f ∈ fields, Shallow n f.2) :
    Shallow (n + 1) (.object fields) := by
  simp only [Shallow, Json.depth, Numberless, Nat.add_le_add_iff_right]
  induction fields with
  | nil => simp [depthFields, NumberlessMembers]
  | cons f fields ih =>
    rw [List.forall_mem_cons] at h
    obtain ⟨hdepth, hnumbers⟩ := ih h.2
    rw [depthFields, NumberlessMembers]
    exact ⟨max_le h.1.1 hdepth, h.1.2, hnumbers⟩

theorem shallow_of_isText {v : Json} (h : isText v = true) : Shallow 0 v := by
  cases v with
  | null => simp [Shallow, Json.depth, Numberless]
  | string text => simp [Shallow, Json.depth, Numberless]
  | _ => cases h

theorem Shallow.mono {m n : ℕ} {v : Json} (h : Shallow m v) (hle : m ≤ n) : Shallow n v :=
  ⟨h.1.trans hle, h.2⟩

theorem shallow_keepSimple (kind : ProfileFieldKind) {v v' : Json}
    (h : keepSimple kind v = some v') : Shallow 1 v' := by
  rw [keepSimple, Option.ite_none_right_eq_some] at h
  obtain ⟨hfits, hv⟩ := h
  cases hv
  cases kind with
  | scalar => exact (shallow_of_isText hfits).mono (by decide)
  | optional => exact (shallow_of_isText hfits).mono (by decide)
  | addresses => cases hfits
  | strings =>
    cases v with
    | null => exact (shallow_of_isText rfl).mono (by decide)
    | array items =>
      rw [fitsSimple, List.all_eq_true] at hfits
      exact shallow_array fun v hv => shallow_of_isText (hfits v hv)
    | _ => cases hfits

theorem keepFields_forall {P : Json → Prop} {address : Bool}
    {keep : ProfileFieldKind → Json → Option Json}
    (hkeep : ∀ kind v v', keep kind v = some v' → P v') :
    ∀ (fields : List (String × Json)) {kept : List (String × Json)},
      keepFields address keep fields = some kept → ∀ f ∈ kept, P f.2
  | [], kept, h => by
      cases h
      simp
  | (name, v) :: fields, kept, h => by
      rw [keepFields] at h
      cases hkind : profileFieldKind name address with
      | none =>
        simp only [hkind] at h
        exact keepFields_forall hkeep fields h
      | some kind =>
        simp only [hkind, Option.bind_eq_some_iff, Option.map_eq_some_iff] at h
        obtain ⟨v', hv', r, hr, rfl⟩ := h
        rw [List.forall_mem_cons]
        exact ⟨hkeep kind v v' hv', keepFields_forall hkeep fields hr⟩

theorem shallow_keepAddress {v v' : Json} (h : keepAddress v = some v') : Shallow 2 v' := by
  cases v with
  | null =>
    cases h
    exact (shallow_of_isText rfl).mono (by decide)
  | object fields =>
    rw [keepAddress, Option.map_eq_some_iff] at h
    obtain ⟨kept, hkept, rfl⟩ := h
    exact shallow_object (keepFields_forall (fun kind _ _ => shallow_keepSimple kind) fields hkept)
  | _ => cases h

theorem shallow_keepKind {kind : ProfileFieldKind} {v v' : Json} (h : keepKind kind v = some v') :
    Shallow 3 v' := by
  cases kind with
  | addresses =>
    cases v with
    | null =>
      cases h
      exact (shallow_of_isText rfl).mono (by decide)
    | array items =>
      rw [keepKind, Option.map_eq_some_iff] at h
      obtain ⟨kept, hkept, rfl⟩ := h
      refine shallow_array fun u hu => ?_
      obtain ⟨item, -, hitem⟩ := (Result.mem_mapM hkept).1 hu
      exact shallow_keepAddress hitem
    | _ => cases h
  | scalar => exact (shallow_keepSimple .scalar h).mono (by decide)
  | optional => exact (shallow_keepSimple .optional h).mono (by decide)
  | strings => exact (shallow_keepSimple .strings h).mono (by decide)

theorem shallow_keepProfile {v v' : Json} (h : keepProfile v = some v') : Shallow 4 v' := by
  cases v with
  | null =>
    cases h
    exact (shallow_of_isText rfl).mono (by decide)
  | object fields =>
    rw [keepProfile, Option.map_eq_some_iff] at h
    obtain ⟨kept, hkept, rfl⟩ := h
    exact shallow_object (keepFields_forall (fun _ _ _ => shallow_keepKind) fields hkept)
  | _ => cases h

/-! ### The decoder -/

/-- A JSON text of any strings is decoded as the record of its value, or refused where the record
refuses it. -/
theorem decodeGoProfileJson_document {serde : SerdeJson} (hserde : serde.ReadsTexts)
    {number : Octets → ℤ ⊕ ℤ × ℤ} {v : Json} {s : Bytes}
    (h : SpellsDocument LooseText number v s) (hdepth : v.depth ≤ goMaxJsonNestingDepth) :
    decodeGoProfileJson serde s = readRecord { fullName := "" } profileField v := by
  obtain ⟨s', hs', hnormal⟩ := normalizeGoJson_document h hdepth
  have hreduce := reduceProfileJson_document hserde hs' hdepth
  rw [decodeGoProfileJson, hnormal, Option.bind_some, ← readRecord_keepProfile]
  cases hkept : keepProfile v with
  | none =>
    rw [hkept] at hreduce
    cases hrun : reduceProfileJson serde s' with
    | none => rfl
    | some t =>
      rw [hrun] at hreduce
      exact hreduce.elim
  | some v' =>
    obtain ⟨hshallow, hnumbers⟩ := shallow_keepProfile hkept
    rw [hkept] at hreduce
    cases hrun : reduceProfileJson serde s' with
    | none =>
      rw [hrun] at hreduce
      exact hreduce.elim
    | some t =>
      rw [hrun] at hreduce
      have hdocument : Document v' t :=
        ⟨[], t, [], blank_nil, (spells_iff_text v' hnumbers).1 hreduce, blank_nil, by simp⟩
      rw [Option.bind_some, hserde v' t hnumbers (hshallow.trans (by decide)) hdocument]

end EraseMe.Identity.Secrets
