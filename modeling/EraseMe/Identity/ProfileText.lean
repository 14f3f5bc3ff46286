import EraseMe.Identity.ProfileReading
import EraseMe.Identity.ProfileTotal
import EraseMe.Library.JsonReading

/-!
# The text of a profile, reduced and not

What comes out of the normaliser and the filter is decoded as the text itself would be, where
`serde_json` reads it; members that are not fields change nothing, however deep they are; and
whatever the octets, every loop ends within them (`decodeGoProfileJson_faithful`).
-/

namespace EraseMe.Identity.Secrets

open Json

/-- `serde_json` reads the texts that are UTF-8, without a surrogate alone, up to its depth. -/
def SerdeJson.Reads (serde : SerdeJson) (number : Octets → ℤ ⊕ ℤ × ℤ) : Prop :=
  ∀ v s, v.depth ≤ maxDepth → SpellsDocument StringText number v s → serde.fromSlice s = some v

theorem SerdeJson.Reads.texts {serde : SerdeJson} {number : Octets → ℤ ⊕ ℤ × ℤ}
    (h : serde.Reads number) : serde.ReadsTexts := by
  intro v s hnumbers hdepth hs
  exact h v s hdepth ((spellsDocument_iff_document hnumbers).2 hs)

/-! ### Members that are not fields -/

/-- The second value has one member more, at the top or in an address, that is not a field. -/
inductive Adds : Json → Json → Prop
  | top {before after : List (String × Json)} {name : String} (value : Json)
      (h : profileFieldKind name false = none) :
      Adds (.object (before ++ after)) (.object (before ++ (name, value) :: after))
  | address {before after fields fields' : List (String × Json)} {items items' : List Json}
      {list name : String} (value : Json)
      (hlist : profileFieldKind list false = some .addresses)
      (h : profileFieldKind name true = none) :
      Adds
        (.object (before ++
          (list, .array (items ++ .object (fields ++ fields') :: items')) :: after))
        (.object (before ++
          (list, .array (items ++ .object (fields ++ (name, value) :: fields') :: items')) ::
          after))

theorem depthFields_append (m m' : List (String × Json)) :
    depthFields (m ++ m') = max (depthFields m) (depthFields m') := by
  induction m with
  | nil => simp [depthFields]
  | cons f m ih =>
    rw [List.cons_append, depthFields, depthFields, ih, max_assoc]

theorem depthItems_append (l l' : List Json) :
    depthItems (l ++ l') = max (depthItems l) (depthItems l') := by
  induction l with
  | nil => simp [depthItems]
  | cons v l ih => rw [List.cons_append, depthItems, depthItems, ih, max_assoc]

theorem Adds.depth_le {v v' : Json} (h : Adds v v') : v.depth ≤ v'.depth := by
  cases h with
  | top value h =>
    simp only [Json.depth, depthFields_append, depthFields]
    omega
  | address value hlist h =>
    simp only [Json.depth, depthFields_append, depthFields, depthItems_append, depthItems]
    omega

/-- A member that is not read changes no record. -/
theorem readRecord_insert {ρ : Type} {readField : ρ → String → Json → Option ρ} (record : ρ)
    (before after : List (String × Json)) {name : String} {value : Json}
    (h : ∀ r, readField r (foldName name) value = some r) :
    readRecord record readField (.object (before ++ (name, value) :: after)) =
      readRecord record readField (.object (before ++ after)) := by
  simp only [readRecord, List.foldlM_append, List.foldlM_cons, h]
  rfl

/-- Values that are read alike can stand for each other. -/
theorem readRecord_replace {ρ : Type} {readField : ρ → String → Json → Option ρ} (record : ρ)
    (before after : List (String × Json)) {name : String} {value value' : Json}
    (h : ∀ r, readField r (foldName name) value' = readField r (foldName name) value) :
    readRecord record readField (.object (before ++ (name, value') :: after)) =
      readRecord record readField (.object (before ++ (name, value) :: after)) := by
  simp only [readRecord, List.foldlM_append, List.foldlM_cons, h]

theorem readAddresses_replace (items items' : List Json) {v v' : Json}
    (h : readRecord emptyAddress addressField v' = readRecord emptyAddress addressField v) :
    readAddresses (.array (items ++ v' :: items')) =
      readAddresses (.array (items ++ v :: items')) := by
  simp only [readAddresses, List.mapM_append, List.mapM_cons, h]

theorem foldName_of_addresses {name : String}
    (h : profileFieldKind name false = some .addresses) : foldName name = "addresses" := by
  unfold profileFieldKind at h
  simp only [Bool.false_eq_true, if_false] at h
  split_ifs at h with h1 h2 h3 h4
  · cases h
  · cases h
  · cases h
  · exact h4

theorem Adds.readRecord_eq {v v' : Json} (h : Adds v v') :
    readRecord { fullName := "" } profileField v' =
      readRecord { fullName := "" } profileField v := by
  cases h with
  | top value h => exact readRecord_insert _ _ _ fun r => profileField_unknown r _ value h
  | @address before after fields fields' items items' list name value hlist h =>
    have hunknown : ∀ r, addressField r (foldName name) value = some r := fun r =>
      addressField_unknown r name value h
    have haddress := readRecord_insert emptyAddress fields fields' hunknown
    refine readRecord_replace _ _ _ fun r => ?_
    have hfield (v : Json) : profileField r "addresses" v =
        (readAddresses v).map fun x => { r with addresses := x } := by simp [profileField]
    rw [foldName_of_addresses hlist, hfield, hfield, readAddresses_replace items items' haddress]

/-! ### Any octets -/

/-- More turns than there is something left to do change nothing. -/
structure Settles (serde : SerdeJson) (s : Bytes) : Prop where
  strings : ∀ fuel, s.length ≤ fuel → normalizeJsonString fuel s = normalizeJsonString s.length s
  walk : ∀ fuel depth, s.length ≤ fuel → normalizeFrom fuel depth s = normalizeFrom s.length depth s
  cursor : ∀ fuel, s.length ≤ fuel → parseStringFrom fuel s = parseStringFrom s.length s
  values : ∀ fuel frames, s.length ≤ fuel → skipLoop fuel frames s = skipLoop s.length frames s
  checks : ∀ fuel, s.length ≤ fuel → validateStrings fuel s = validateStrings s.length s
  filter : ∀ fuel (part : Part), part.left s ≤ fuel →
    part.reduce serde fuel s = part.reduce serde (part.left s) s

/-- What is sliced is there, and a cursor that is returned is in the text.  A string that is passed
has a character for each of its escapes and encoded characters, and U+FFFD for each octet of
anything else and for each surrogate alone (`Passes`). -/
structure StaysWithin (serde : SerdeJson) (s : Bytes) : Prop where
  quad : ∀ n, hexQuad s = some n → 4 ≤ s.length
  pair : ∀ n, lowSurrogate s = some n → 6 ≤ s.length
  width : ∀ n, validUtf8Width s = some n → n ≠ 0 ∧ n ≤ s.length
  passes : ∀ fuel out rest, normalizeJsonString fuel s = some (out, rest) → Passes s out rest
  string : ∀ rest, parseString s = some rest → Past rest s
  literal : ∀ word rest, parseLiteral word s = some rest → s = Utf8.encode word ++ rest
  number : ∀ rest, parseNumber s = some rest → Past rest s
  value : ∀ range rest, skipValue s = some (range, rest) → skipBlank s = range ++ rest
  filter : ∀ fuel (part : Part) out rest, part.reduce serde fuel s = some (out, rest) → Past rest s

theorem settles (serde : SerdeJson) (s : Bytes) : Settles serde s where
  strings _ h := normalizeJsonString_stable h
  walk _ _ h := normalizeFrom_stable h
  cursor _ h := parseStringFrom_stable h
  values _ _ h := skipLoop_stable h
  checks _ h := validateStrings_stable h
  filter _ _ h := reduce_stable h

theorem staysWithin (serde : SerdeJson) (s : Bytes) : StaysWithin serde s where
  quad _ h := hexQuad_length h
  pair _ h := lowSurrogate_length h
  width _ h := validUtf8Width_length h
  passes _ _ _ h := passes_of_normalizeJsonString h
  string _ h := past_parseString h
  literal _ _ h := parseLiteral_eq_some h
  number _ h := past_parseNumber h
  value _ _ h := (skipValue_eq_some h).1
  filter fuel part _ _ h := past_reduce fuel part h

/-! ### The reduction preserves the meaning -/

/-- A text that `serde_json` reads is decoded as it would be directly; any JSON text is decoded as
the record of its value, and members that are not fields change nothing; and on any octets every
loop ends within them. -/
theorem decodeGoProfileJson_faithful {serde : SerdeJson} {number : Octets → ℤ ⊕ ℤ × ℤ}
    (hserde : serde.Reads number) :
    (∀ v s, v.depth ≤ maxDepth → SpellsDocument StringText number v s →
      decodeGoProfileJson serde s =
        (serde.fromSlice s).bind (readRecord { fullName := "" } profileField)) ∧
    (∀ (t : Tree) (w w' : Space), t.depth ≤ goMaxJsonNestingDepth →
      ∃ v, SpellsDocument LooseText number v (w.octets ++ (t.octets ++ w'.octets)) ∧
        decodeGoProfileJson serde (w.octets ++ (t.octets ++ w'.octets)) =
          readRecord { fullName := "" } profileField v) ∧
    (∀ v v' s s', Adds v v' → v'.depth ≤ goMaxJsonNestingDepth →
      SpellsDocument LooseText number v s → SpellsDocument LooseText number v' s' →
        decodeGoProfileJson serde s' = decodeGoProfileJson serde s) ∧
    ∀ s, Settles serde s ∧ StaysWithin serde s := by
  have hdecode {v : Json} {s : Bytes} (h : SpellsDocument LooseText number v s)
      (hdepth : v.depth ≤ goMaxJsonNestingDepth) :
      decodeGoProfileJson serde s = readRecord { fullName := "" } profileField v :=
    decodeGoProfileJson_document hserde.texts h hdepth
  refine ⟨fun v s hdepth hs => ?_, fun t w w' hdepth => ?_, fun v v' s s' hadds hdepth hs hs' => ?_,
    fun s => ⟨settles serde s, staysWithin serde s⟩⟩
  · rw [hserde v s hdepth hs, Option.bind_some]
    exact hdecode (hs.mono fun _ _ => looseText_of_text) (hdepth.trans (by decide))
  · obtain ⟨v, hv, hvdepth⟩ := exists_spells t
    have hs : SpellsDocument LooseText number v (w.octets ++ (t.octets ++ w'.octets)) :=
      ⟨w.octets, t.octets, w'.octets, w.blank, hv, w'.blank, rfl⟩
    exact ⟨v, hs, hdecode hs (hvdepth.trans_le hdepth)⟩
  · rw [hdecode hs' hdepth, hdecode hs (hadds.depth_le.trans hdepth), hadds.readRecord_eq]

/-! ### A profile with a member too many -/

/-- Integers are read; other numbers are not told apart. -/
def integerNumber (s : Octets) : ℤ ⊕ ℤ × ℤ :=
  match readInt s with
  | some (.int n, []) => .inl n
  | _ => .inr (0, 0)

/-- A library that decodes. -/
def decodedSerde : SerdeJson := ⟨compact, pretty, Json.decode integerNumber⟩

theorem decodedSerde_reads : decodedSerde.Reads integerNumber := fun _ _ _ h => decode_document h

/-- A profile with a name. -/
def annaFields : Json := .object [("full_name", .string "Anna"), ("Emails", .null)]

/-- The same with a nickname. -/
def annaNicknamed : Json :=
  .object [("full_name", .string "Anna"), ("nickname", .array [.array [.bool true]]),
    ("Emails", .null)]

theorem spells_compact {v : Json} (h : Numberless v) :
    SpellsDocument StringText integerNumber v (compact v) :=
  (spellsDocument_iff_document h).2
    ⟨[], _, [], blank_nil, text_compact (plain_of_numberless v h), blank_nil, by simp⟩

theorem decodeGoProfileJson_faithful_anna :
    decodeGoProfileJson decodedSerde (compact annaFields) =
        (decodedSerde.fromSlice (compact annaFields)).bind
          (readRecord { fullName := "" } profileField) ∧
      decodeGoProfileJson decodedSerde (compact annaNicknamed) =
        decodeGoProfileJson decodedSerde (compact annaFields) ∧
      StaysWithin decodedSerde [34, 237, 160] := by
  have hanna : SpellsDocument StringText integerNumber annaFields (compact annaFields) :=
    spells_compact (by simp [annaFields, Numberless, NumberlessMembers])
  have hnick : SpellsDocument StringText integerNumber annaNicknamed (compact annaNicknamed) :=
    spells_compact (by simp [annaNicknamed, Numberless, NumberlessMembers, NumberlessItems])
  have hadds : Adds (.object ([("full_name", .string "Anna")] ++ [("Emails", .null)]))
      annaNicknamed := .top (.array [.array [.bool true]]) (by decide)
  obtain ⟨hdirect, -, hmember, hany⟩ := decodeGoProfileJson_faithful decodedSerde_reads
  exact ⟨hdirect _ _ (by decide) hanna,
    hmember _ _ _ _ hadds (by decide) (hanna.mono fun _ _ => looseText_of_text)
      (hnick.mono fun _ _ => looseText_of_text), (hany _).2⟩

end EraseMe.Identity.Secrets
