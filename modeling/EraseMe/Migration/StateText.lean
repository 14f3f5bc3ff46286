import EraseMe.Library.JsonRewrite
import EraseMe.Migration.JsonDecode

/-!
# The documents of a migration

`jsonBytes` prints a value and then writes five characters as escapes, as Go does.  What is printed
of a state is read as this state (`state_jsonBytes`), and the marker of a backup matches the source
it was made of (`markerMatches_jsonBytes`).
-/

namespace EraseMe.Migration

open Decode
open Json (Octets Quoted Rewriting Says SaysMembers Tree said)

/-! ### Printing -/

/-- The characters that a page could take for markup, and two that end lines of a script. -/
def escaped (text : List Char) : List Char :=
  let text := Text.replaceAll text ['&'] "\\u0026".toList
  let text := Text.replaceAll text ['<'] "\\u003c".toList
  let text := Text.replaceAll text ['>'] "\\u003e".toList
  let text := Text.replaceAll text ['\u2028'] "\\u2028".toList
  Text.replaceAll text ['\u2029'] "\\u2029".toList

/-- What `serde_json` prints is UTF-8. -/
def jsonBytes (value : Json) : Octets :=
  match Utf8.decode (Json.pretty value) with
  | some text => Utf8.encode (String.ofList (escaped text))
  | none => []

/-- A state as a value. -/
def State.value (state : State) : Json :=
  .object [
    ("version", .int state.version.toInt),
    ("source_root", .string state.sourceRoot),
    ("destination_root", .string state.destinationRoot),
    ("backup_dir", .string state.backupDir),
    ("items", match state.items with
      | none => .null
      | some items => .object (items.entries.map fun item => (item.1, .string item.2)))]

/-- A file from elsewhere. -/
structure ExternalBackup where
  id : String
  source : String
  backup : String
  deriving DecidableEq, Repr

/-- What a backup holds. -/
structure BackupManifest where
  version : UInt32
  source : String
  artifacts : Option (List String)
  external : Option (List ExternalBackup)
  deriving DecidableEq, Repr

/-- The same as a value. -/
def ExternalBackup.value (e : ExternalBackup) : Json :=
  .object [("id", .string e.id), ("source", .string e.source), ("backup", .string e.backup)]

/-- The same as a value. -/
def BackupManifest.value (manifest : BackupManifest) : Json :=
  .object [
    ("version", .int manifest.version.toNat),
    ("source", .string manifest.source),
    ("artifacts", match manifest.artifacts with
      | none => .null
      | some ids => .array (ids.map .string)),
    ("external", match manifest.external with
      | none => .null
      | some external => .array (external.map ExternalBackup.value))]

/-! ### The escapes are those of the characters -/

/-- What a character is written as. -/
def escape (c : Char) : List Char :=
  if c = '&' then "\\u0026".toList
  else if c = '<' then "\\u003c".toList
  else if c = '>' then "\\u003e".toList
  else if c = '\u2028' then "\\u2028".toList
  else if c = '\u2029' then "\\u2029".toList
  else [c]

theorem escaped_eq (text : List Char) : escaped text = text.flatMap escape := by
  simp only [escaped, Json.replaceAll_singleton, List.flatMap_assoc]
  refine List.flatMap_congr fun c _ => ?_
  unfold escape
  split_ifs with h1 h2 h3 h4 h5
  · subst h1
    decide
  · subst h2
    decide
  · subst h3
    decide
  · subst h4
    decide
  · subst h5
    decide
  · simp only [List.flatMap_singleton, if_neg h2, if_neg h3, if_neg h4, if_neg h5]

theorem markup_not_mem_escape (c : Char) : ∀ d ∈ escape c, d ∉ ['&', '<', '>'] := by
  unfold escape
  split_ifs with h1 h2 h3 h4 h5
  · decide
  · decide
  · decide
  · decide
  · decide
  · intro d hd
    rw [List.mem_singleton.1 hd]
    simp [h1, h2, h3]

theorem rewriting_escape : Rewriting escape where
  keeps := by decide +kernel
  escapes c := by
    unfold escape
    split_ifs with h1 h2 h3 h4 h5
    · exact Or.inr (h1 ▸ .unit (by decide))
    · exact Or.inr (h2 ▸ .unit (by decide))
    · exact Or.inr (h3 ▸ .unit (by decide))
    · exact Or.inr (h4 ▸ .unit (by decide))
    · exact Or.inr (h5 ▸ .unit (by decide))
    · exact Or.inl rfl

theorem text_jsonBytes {value : Json} (h : Json.Plain value) : Json.Text value (jsonBytes value) := by
  obtain ⟨cs, hcs, htext⟩ := Json.text_rewrite rewriting_escape h
  rw [jsonBytes, hcs]
  simp only [escaped_eq]
  exact htext

/-! ### What is read of a state -/

section Members

variable {key : String} {value : Json} {fields : List (String × Json)} {tree : Tree}

/-- The first member. -/
theorem membersFrom_cons {members : List (Quoted × Tree)}
    (h : SaysMembers ((key, value) :: fields) members) :
    ∃ tree rest, Says value tree ∧ SaysMembers fields rest ∧
      ∀ {σ : Type} {f : σ → String → Tree → Except String σ} {s s' : σ},
        f s key tree = .ok s' → membersFrom f members s = membersFrom f rest s' := by
  simp only [SaysMembers] at h
  obtain ⟨quoted, tree, rest, rfl, hkey, hsays, hrest⟩ := h
  refine ⟨tree, rest, hsays, hrest, fun hf => ?_⟩
  rw [membersFrom, List.foldlM_cons, said_eq hkey, hf]
  rfl

theorem membersFrom_nil {σ : Type} {members : List (Quoted × Tree)} (h : SaysMembers [] members)
    (f : σ → String → Tree → Except String σ) (s : σ) : membersFrom f members s = .ok s := by
  simp only [SaysMembers] at h
  rw [h]
  rfl

theorem stringFrom_saying {text : String} (h : Says (.string text) tree) (field out : String) :
    stringFrom field out tree = .ok text := by
  simp only [Says] at h
  rw [stringFrom, h.1, said_eq h.2]

theorem parseIsize_int (n : Int64) : parseIsize (Json.intText n.toInt) = some n := by
  have hlow := Int64.le_toInt n
  have hhigh := Int64.toInt_lt n
  have hnodigit : Json.NoDigit [] := by simp [Json.NoDigit]
  have hread := Json.readDigits_digits n.toInt.natAbs hnodigit
  have hrange : ∀ d ∈ Json.digits n.toInt.natAbs, Json.isDigit d = true :=
    fun d hd => decide_eq_true (Json.digits_range hd)
  have hne : Json.digits n.toInt.natAbs ≠ [] := by simp [Json.digits, Nat.toDigits_ne_nil]
  have hvalue : Nat.ofDigitChars 10 ((Json.digits n.toInt.natAbs).map fun d =>
      Char.ofNat d.toNat) 0 = n.toInt.natAbs := by
    have htake : (Json.digits n.toInt.natAbs).takeWhile Json.isDigit = Json.digits _ :=
      List.takeWhile_eq_self_iff.2 hrange
    rw [List.append_nil, Json.readDigits, htake, if_neg hne] at hread
    exact (Prod.mk.inj (Option.some.inj hread)).1
  unfold Json.intText
  by_cases hn : n.toInt < 0
  · rw [if_pos hn, parseIsize]
    simp only [List.head?_cons, or_true, if_true, List.tail_cons]
    rw [if_pos ⟨hne, hrange⟩, hvalue, show -((n.toInt.natAbs : ℕ) : ℤ) = n.toInt by omega,
      if_pos ⟨hlow, hhigh⟩, Int64.ofInt_toInt]
  · have hhead : (Json.digits n.toInt.natAbs).head? ≠ some 43 ∧
        (Json.digits n.toInt.natAbs).head? ≠ some 45 := by
      constructor <;> intro hsome <;>
        exact absurd (Json.digits_range (List.mem_of_mem_head? hsome)) (by decide)
    rw [if_neg hn, parseIsize]
    simp only [hhead.1, hhead.2, or_self, if_false]
    rw [if_pos ⟨hne, hrange⟩, hvalue, show ((n.toInt.natAbs : ℕ) : ℤ) = n.toInt by omega,
      if_pos ⟨hlow, hhigh⟩, Int64.ofInt_toInt]

theorem intFrom_saying {n : Int64} (h : Says (.int n.toInt) tree) (out : Int64) :
    intFrom out tree = .ok n := by
  simp only [Says] at h
  rw [intFrom, h.1, h.2]
  simp only [intOf, parseIsize_int]

theorem itemFrom_saying {text : String} (h : Says (.string text) tree)
    (items : BTreeMap String String) (key : String) :
    itemFrom items key tree = .ok (items.insert key text) := by
  rw [itemFrom, stringFrom_saying h]
  rfl

theorem membersFrom_items (entries : List (String × String)) :
    ∀ {members : List (Quoted × Tree)} (items : BTreeMap String String),
      SaysMembers (entries.map fun item => (item.1, .string item.2)) members →
        membersFrom itemFrom members items =
          .ok (entries.foldl (fun items item => items.insert item.1 item.2) items) := by
  induction entries with
  | nil =>
    intro members items h
    exact membersFrom_nil h itemFrom items
  | cons item entries ih =>
    intro members items h
    obtain ⟨tree, rest, hsays, hrest, hfold⟩ := membersFrom_cons h
    rw [hfold (itemFrom_saying hsays items item.1), ih _ hrest]
    rfl

theorem itemsFrom_saying {items : Option (BTreeMap String String)}
    (h : Says (match items with
      | none => .null
      | some items => .object (items.entries.map fun item => (item.1, .string item.2))) tree) :
    itemsFrom none tree = .ok items := by
  cases items with
  | none =>
    simp only [Says] at h
    rw [itemsFrom, h]
  | some items =>
    simp only [Says] at h
    rw [itemsFrom, h.1]
    simp only [Option.getD_none, membersFrom_items _ _ h.2, BTreeMap.foldl_insert_entries]
    rfl

/-! ### Fields by their names -/

theorem fieldFrom_version {n : Int64} (h : Says (.int n.toInt) tree) (marker : Bool) (s : State) :
    fieldFrom marker s "version" tree = .ok { s with version := n } := by
  have hname : fieldName "version" = "version" := by decide
  simp [fieldFrom, hname, intFrom_saying h]

theorem fieldFrom_source {text : String} (h : Says (.string text) tree) (s : State) :
    fieldFrom true s "source" tree = .ok { s with sourceRoot := text } := by
  have hname : fieldName "source" = "source" := by decide
  simp [fieldFrom, hname, stringFrom_saying h]

theorem fieldFrom_sourceRoot {text : String} (h : Says (.string text) tree) (s : State) :
    fieldFrom false s "source_root" tree = .ok { s with sourceRoot := text } := by
  have hname : fieldName "source_root" = "source_root" := by decide
  simp [fieldFrom, hname, stringFrom_saying h]

theorem fieldFrom_destinationRoot {text : String} (h : Says (.string text) tree) (s : State) :
    fieldFrom false s "destination_root" tree = .ok { s with destinationRoot := text } := by
  have hname : fieldName "destination_root" = "destination_root" := by decide
  simp [fieldFrom, hname, stringFrom_saying h]

theorem fieldFrom_backupDir {text : String} (h : Says (.string text) tree) (s : State) :
    fieldFrom false s "backup_dir" tree = .ok { s with backupDir := text } := by
  have hname : fieldName "backup_dir" = "backup_dir" := by decide
  simp [fieldFrom, hname, stringFrom_saying h]

theorem fieldFrom_items {items : Option (BTreeMap String String)} {s : State}
    (h : itemsFrom s.items tree = .ok items) :
    fieldFrom false s "items" tree = .ok { s with items } := by
  have hname : fieldName "items" = "items" := by decide
  simp [fieldFrom, hname, h]

/-- A marker has other members too. -/
theorem fieldFrom_other {name : String} (hversion : fieldName name ≠ "version")
    (hsource : fieldName name ≠ "source") (s : State) :
    fieldFrom true s name tree = .ok s := by
  simp only [fieldFrom, hversion, hsource, if_false, false_and, Bool.not_true, Bool.false_eq_true,
    and_false]
  rfl

/-- A tree that says a state. -/
theorem stateFrom_saying {state : State} (h : Says state.value tree) :
    stateFrom false tree = .ok state := by
  rw [State.value] at h
  simp only [Says] at h
  obtain ⟨hkind, h⟩ := h
  obtain ⟨version, rest, hversion, hrest, hfold₁⟩ := membersFrom_cons h
  obtain ⟨source, rest, hsource, hrest, hfold₂⟩ := membersFrom_cons hrest
  obtain ⟨destination, rest, hdestination, hrest, hfold₃⟩ := membersFrom_cons hrest
  obtain ⟨backup, rest, hbackup, hrest, hfold₄⟩ := membersFrom_cons hrest
  obtain ⟨items, rest, hitems, hrest, hfold₅⟩ := membersFrom_cons hrest
  rw [stateFrom, hkind]
  simp only
  rw [hfold₁ (fieldFrom_version hversion false {}), hfold₂ (fieldFrom_sourceRoot hsource _),
    hfold₃ (fieldFrom_destinationRoot hdestination _), hfold₄ (fieldFrom_backupDir hbackup _),
    hfold₅ (fieldFrom_items (itemsFrom_saying hitems)), membersFrom_nil hrest]

/-- A tree that says a marker. -/
theorem stateFrom_manifest {manifest : BackupManifest} (h : Says manifest.value tree) :
    stateFrom true tree = .ok { ({} : State) with
      version := .ofNat manifest.version.toNat
      sourceRoot := manifest.source } := by
  rw [BackupManifest.value] at h
  simp only [Says] at h
  obtain ⟨hkind, h⟩ := h
  obtain ⟨version, rest, hversion, hrest, hfold₁⟩ := membersFrom_cons h
  obtain ⟨source, rest, hsource, hrest, hfold₂⟩ := membersFrom_cons hrest
  obtain ⟨artifacts, rest, -, hrest, hfold₃⟩ := membersFrom_cons hrest
  obtain ⟨external, rest, -, hrest, hfold₄⟩ := membersFrom_cons hrest
  have hlt := manifest.version.toNat_lt
  have hint : (manifest.version.toNat : ℤ) = (Int64.ofNat manifest.version.toNat).toInt :=
    (Int64.toInt_ofNat_of_lt (by omega)).symm
  rw [hint] at hversion
  rw [stateFrom, hkind]
  simp only
  rw [hfold₁ (fieldFrom_version hversion true {}), hfold₂ (fieldFrom_source hsource _),
    hfold₃ (fieldFrom_other (by decide) (by decide) _),
    hfold₄ (fieldFrom_other (by decide) (by decide) _), membersFrom_nil hrest]

end Members

/-! ### What is written is read -/

theorem fits_state (state : State) : Json.Fits 2 state.value := by
  have hlow := Int64.le_toInt state.version
  have hhigh := Int64.toInt_lt state.version
  refine Json.fits_object ?_
  simp only [List.forall_mem_cons, List.not_mem_nil, false_implies, implies_true, and_true]
  refine ⟨Json.fits_int 1 ⟨hlow, by omega⟩, Json.fits_string 1 _, Json.fits_string 1 _,
    Json.fits_string 1 _, ?_⟩
  cases state.items with
  | none => exact Json.fits_null 1
  | some items =>
    refine Json.fits_object fun field hfield => ?_
    obtain ⟨item, -, rfl⟩ := List.mem_map.1 hfield
    exact Json.fits_string 0 item.2

theorem fits_external (e : ExternalBackup) : Json.Fits 1 e.value := by
  refine Json.fits_object ?_
  simp only [List.forall_mem_cons, List.not_mem_nil, false_implies, implies_true, and_true]
  exact ⟨Json.fits_string 0 _, Json.fits_string 0 _, Json.fits_string 0 _⟩

theorem fits_manifest (manifest : BackupManifest) : Json.Fits 3 manifest.value := by
  have hlt := manifest.version.toNat_lt
  refine Json.fits_object ?_
  simp only [List.forall_mem_cons, List.not_mem_nil, false_implies, implies_true, and_true]
  refine ⟨Json.fits_int 2 ⟨?_, ?_⟩, Json.fits_string 2 _, ?_, ?_⟩
  · exact le_trans (by decide) (Int.natCast_nonneg _)
  · omega
  · cases manifest.artifacts with
    | none => exact Json.fits_null 2
    | some ids =>
      refine Json.fits_array fun v hv => ?_
      obtain ⟨id, -, rfl⟩ := List.mem_map.1 hv
      exact Json.fits_string 1 id
  · cases manifest.external with
    | none => exact Json.fits_null 2
    | some external =>
      refine Json.fits_array fun v hv => ?_
      obtain ⟨e, -, rfl⟩ := List.mem_map.1 hv
      exact fits_external e

/-- A document that is written is decoded as a tree that says its value. -/
theorem decode_jsonBytes {value : Json} {n : ℕ} (h : Json.Fits n value) (hn : n ≤ maxDepth)
    (marker : Bool) : ∃ tree, Says value tree ∧
      decode (jsonBytes value) marker = lift (stateFrom marker tree) := by
  obtain ⟨tree, htree, hdepth, hsays⟩ := Json.exists_tree value (text_jsonBytes h.2)
  refine ⟨tree, hsays, decode_tree ⟨[], Json.blank_nil⟩ tree ⟨[], Json.blank_nil⟩ ?_ ?_ marker⟩
  · rw [htree, List.nil_append, List.append_nil]
  · exact hdepth ▸ h.1.trans hn

theorem state_jsonBytes (st : State) : state (jsonBytes st.value) = .ok st := by
  obtain ⟨tree, hsays, hdecode⟩ := decode_jsonBytes (fits_state st) (by decide) false
  rw [state, hdecode, stateFrom_saying hsays]
  rfl

theorem markerMatches_jsonBytes (manifest : BackupManifest) (source : String) :
    markerMatches (jsonBytes manifest.value) source =
      .ok (decide (manifest.version = 1 ∧ manifest.source = source)) := by
  obtain ⟨tree, hsays, hdecode⟩ := decode_jsonBytes (fits_manifest manifest) (by decide) true
  have hversion : (Int64.ofNat manifest.version.toNat = 1) ↔ manifest.version = 1 := by
    have hlt := manifest.version.toNat_lt
    rw [← Int64.toInt_inj, Int64.toInt_ofNat_of_lt (by omega), ← UInt32.toNat_inj]
    simp
  rw [markerMatches, hdecode, stateFrom_manifest hsays]
  simp only [lift_ok, hversion]

theorem markup_not_mem_jsonBytes (value : Json) :
    ∀ b ∈ jsonBytes value, b ∉ ([38, 60, 62] : Octets) := by
  intro b hb hmem
  rw [jsonBytes] at hb
  cases hdecode : Utf8.decode (Json.pretty value) with
  | none =>
    rw [hdecode] at hb
    cases hb
  | some text =>
    simp only [hdecode, escaped_eq] at hb
    have hmarkup : ∀ b ∈ ([38, 60, 62] : Octets), b < 0x80 ∧
        Char.ofNat b.toNat ∈ ['&', '<', '>'] := by decide
    obtain ⟨hlt, hchar⟩ := hmarkup b hmem
    obtain ⟨c, -, hc⟩ := List.mem_flatMap.1 (Utf8.mem_of_mem_encode hlt hb)
    exact markup_not_mem_escape c _ hc hchar

/-- The file of a state is read as the state. -/
theorem state_roundTrip (st : State) : state (jsonBytes st.value) = .ok st :=
  state_jsonBytes st

/-- What is written of a state is read as the state.  The marker of a backup matches its source, if
it is of the first version, and no other source.  Neither holds a character that stands for
markup. -/
theorem documents_read :
    (∀ st : State, state (jsonBytes st.value) = .ok st) ∧
    (∀ (manifest : BackupManifest) (source : String),
      markerMatches (jsonBytes manifest.value) source =
        .ok (decide (manifest.version = 1 ∧ manifest.source = source))) ∧
    ∀ (value : Json), ∀ b ∈ jsonBytes value, b ∉ ([38, 60, 62] : Octets) :=
  ⟨state_jsonBytes, markerMatches_jsonBytes, markup_not_mem_jsonBytes⟩

end EraseMe.Migration
