import EraseMe.Library.Cursor
import EraseMe.Library.JsonSpelling

/-!
# What a JSON text says

`Tree.members` are the members of an object in the order they come in, and `said` is what a string
says.  A string that is one of `StringText` says that text and no other, so what is read off a tree
does not depend on how its strings are written.

On the tape a value comes with all that is within it (`exists_tape`).

A text of a value is that of a tree which says the value (`exists_tree`).
-/

namespace Json

open Cursor (At)

/-- The kind of the first token. -/
def Tree.kind : Tree → Kind
  | .leaf token => token.kind
  | .empty bracket _ => bracket.kind
  | .node bracket _ => bracket.kind

/-- The key of a member. -/
def Head.key : Head .object → Quoted
  | .member _ key _ _ => key

/-- The values within brackets, each with what comes before it. -/
def Entries.items {bracket : Bracket} : Entries bracket → List (Head bracket × Tree)
  | .last head value _ => [(head, value)]
  | .more head value _ rest => (head, value) :: rest.items

/-- The members of an object. -/
def Tree.members : Tree → List (Quoted × Tree)
  | .node .object entries => entries.items.map fun item => (item.1.key, item.2)
  | _ => []

/-! ### What a string says -/

/-- The text of a string. -/
noncomputable def said (s : Octets) : String := Classical.epsilon fun text => LooseText text s

theorem said_spec {s : Octets} (h : TokenText .string s) : LooseText (said s) s :=
  Classical.epsilon_spec (exists_looseText h)

/-! ### The tape of a value -/

/-- A tape starts with the token of its value, which is the whole of it. -/
theorem exists_tape (tree : Tree) (pos index : ℕ) :
    ∃ rest, tree.tape pos index = ⟨tree.kind, pos, pos + tree.octets.length,
      index + (tree.tape pos index).length⟩ :: rest := by
  cases tree with
  | leaf token =>
    refine ⟨[], ?_⟩
    simp only [Tree.tape, Tree.kind, Tree.octets, List.length_singleton]
  | empty bracket space =>
    refine ⟨[], ?_⟩
    simp only [Tree.tape, Tree.kind, Tree.octets, List.length_cons, List.length_append,
      List.length_nil]
  | node bracket entries =>
    refine ⟨entries.tape (pos + 1) (index + 1), ?_⟩
    simp only [Tree.tape, Tree.kind, Tree.octets, List.length_cons, List.length_append,
      List.length_nil]
    rw [show entries.octets.length + (0 + 1) + 1 = entries.octets.length + 2 by omega,
      show index + 1 + (entries.tape (pos + 1) (index + 1)).length =
        index + ((entries.tape (pos + 1) (index + 1)).length + 1) by omega]

/-! ### Texts are trees -/

mutual

/-- The tree says the value, of which arrays may be any. -/
def Says : Json → Tree → Prop
  | .null, tree => tree.kind = .null
  | .bool _, tree => tree.kind = .bool
  | .int n, tree => tree.kind = .number ∧ tree.octets = intText n
  | .float _ _, _ => False
  | .string text, tree => tree.kind = .string ∧ LooseText text tree.octets
  | .array _, tree => tree.kind = .array
  | .object fields, tree => tree.kind = .object ∧ SaysMembers fields tree.members

/-- The members are said in order. -/
def SaysMembers : List (String × Json) → List (Quoted × Tree) → Prop
  | [], members => members = []
  | (key, v) :: fields, members => ∃ quoted value rest, members = (quoted, value) :: rest ∧
      LooseText key quoted.text ∧ Says v value ∧ SaysMembers fields rest

end

theorem isHex_of_hexQuad {a b d e : UInt8} {n : ℕ} (h : hexQuad [a, b, d, e] = some n) :
    ∀ x ∈ [a, b, d, e], isHex x = true := by
  simp only [hexQuad, Option.bind_eq_bind, Option.bind_eq_some_iff] at h
  obtain ⟨i, hi, j, hj, k, hk, l, hl, -⟩ := h
  simp [isHex, hi, hj, hk, hl]

theorem stringBody_char {c : Char} {t s : Octets} (h : CharText c t) (hs : StringBody s) :
    StringBody (t ++ s) := by
  cases h with
  | plain hcontrol hquote hbackslash =>
    by_cases hc : c.toNat < 128
    · obtain ⟨b, tail, hb, hle, hne, hne', htail⟩ := encode_plain hcontrol hquote hbackslash
      have hsingle : tail = [] := by
        have hencode := Utf8.encode_char_of_lt hc
        rw [hb] at hencode
        exact (List.cons.inj hencode).2
      rw [hb, hsingle]
      exact .plain hle hne hne' hs
    · have hall : ∀ b ∈ String.utf8EncodeChar c, ¬ b < 0x80 := fun _ =>
        not_lt_of_mem_encodeChar (not_lt.1 hc)
      generalize String.utf8EncodeChar c = t at hall
      induction t with
      | nil => exact hs
      | cons b t ih =>
        rw [List.forall_mem_cons] at hall
        have hne (m : UInt8) (hm : m < 0x80) : b ≠ m := by
          rintro rfl
          exact hall.1 hm
        have hcontrol : 32 ≤ b := UInt8.not_lt.1 fun hlt => hall.1 (UInt8.lt_trans hlt (by decide))
        exact .plain hcontrol (hne 34 (by decide)) (hne 92 (by decide)) (ih hall.2)
  | short he => exact .short (Option.isSome_iff_exists.2 ⟨_, he⟩) hs
  | unit hn => exact .unit (isHex_of_hexQuad hn) hs
  | pair hhigh hlow => exact .unit (isHex_of_hexQuad hhigh) (.unit (isHex_of_hexQuad hlow) hs)

theorem tokenText_string {text : String} {s : Octets} (h : StringText text s) :
    TokenText .string s := by
  obtain ⟨body, hbody, rfl⟩ := h
  refine .string ?_
  generalize text.toList = cs at hbody
  induction hbody with
  | nil => exact .nil
  | cons hc _ ih => exact stringBody_char hc ih

theorem exists_head_toDigits {n : ℕ} (hn : 0 < n) :
    ∃ c cs, Nat.toDigits 10 n = c :: cs ∧ c ≠ '0' := by
  induction n using Nat.strong_induction_on with
  | _ n ih =>
    by_cases hlt : n < 10
    · rw [Nat.toDigits_of_lt_base hlt]
      exact ⟨_, [], rfl, by interval_cases n <;> decide⟩
    · obtain ⟨c, cs, hcs, hc⟩ := ih (n / 10) (by omega) (by omega)
      rw [Nat.toDigits_of_base_le (by decide) (by omega), hcs]
      exact ⟨c, _, rfl, hc⟩

theorem wholeText_digits (n : ℕ) : WholeText (digits n) := by
  rcases Nat.eq_zero_or_pos n with rfl | hn
  · exact Or.inl rfl
  · obtain ⟨c, cs, hcs, hc⟩ := exists_head_toDigits hn
    have hrange : ∀ b ∈ digits n, isDigit b = true := fun b hb => decide_eq_true (digits_range hb)
    rw [digits, hcs, List.map_cons, List.forall_mem_cons] at hrange
    refine Or.inr ⟨_, _, by rw [digits, hcs, List.map_cons], hrange.1, fun h48 => hc ?_, hrange.2⟩
    have hdigit := Nat.isDigit_of_mem_toDigits (by decide) (by decide)
      (hcs ▸ List.mem_cons_self : c ∈ Nat.toDigits 10 n)
    simp only [Char.isDigit, Bool.and_eq_true, decide_eq_true_eq, UInt32.le_iff_toNat_le] at hdigit
    have hnat : (Utf8.octet c).toNat = 48 := by rw [h48]; rfl
    rw [Utf8.octet, UInt8.toNat_ofNat'] at hnat
    have hle : c.toNat ≤ 57 := hdigit.2
    exact Char.toNat_inj.1 (by rw [← Nat.mod_eq_of_lt (show c.toNat < 2 ^ 8 by omega), hnat]; rfl)

theorem numberText_int (n : ℤ) : NumberText (intText n) := by
  unfold intText
  split_ifs
  · exact ⟨[45], _, [], [], Or.inr rfl, wholeText_digits n.natAbs, Or.inl rfl,
      Or.inl rfl, by simp⟩
  · exact ⟨[], _, [], [], Or.inl rfl, wholeText_digits n.natAbs, Or.inl rfl,
      Or.inl rfl, by simp⟩

mutual

theorem exists_tree : ∀ (v : Json) {s : Octets}, Text v s →
    ∃ tree : Tree, tree.octets = s ∧ tree.depth = v.depth ∧ Says v tree
  | .null, s, h => by
      simp only [Text] at h
      subst h
      exact ⟨.leaf ⟨.null, _, .null⟩, rfl, rfl, by simp only [Says]; rfl⟩
  | .bool b, s, h => by
      simp only [Text] at h
      subst h
      cases b with
      | true => exact ⟨.leaf ⟨.bool, _, .true⟩, rfl, rfl, by simp only [Says]; rfl⟩
      | false => exact ⟨.leaf ⟨.bool, _, .false⟩, rfl, rfl, by simp only [Says]; rfl⟩
  | .int n, s, h => by
      simp only [Text] at h
      obtain ⟨-, rfl⟩ := h
      exact ⟨.leaf ⟨.number, _, .number (numberText_int n)⟩, rfl, rfl, by
        simp only [Says]; exact ⟨rfl, rfl⟩⟩
  | .float _ _, s, h => by simp only [Text] at h
  | .string text, s, h => by
      simp only [Text] at h
      exact ⟨.leaf ⟨.string, s, tokenText_string h⟩, rfl, rfl, by
        simp only [Says]; exact ⟨rfl, looseText_of_text h⟩⟩
  | .array [], s, h => by
      simp only [Text, Items] at h
      obtain ⟨w, hw, rfl⟩ := h
      exact ⟨.empty .array ⟨w, hw⟩, rfl, rfl, by simp only [Says]; rfl⟩
  | .array (v :: items), s, h => by
      rw [Text] at h
      obtain ⟨inner, hinner, rfl⟩ := h
      obtain ⟨entries, rfl, hdepth⟩ := exists_items (v :: items) hinner (by simp)
      exact ⟨.node .array entries, rfl, by rw [Tree.depth, hdepth, depth], by
        simp only [Says]; rfl⟩
  | .object [], s, h => by
      simp only [Text, Members] at h
      obtain ⟨w, hw, rfl⟩ := h
      exact ⟨.empty .object ⟨w, hw⟩, rfl, rfl, by simp only [Says, SaysMembers]; exact ⟨rfl, rfl⟩⟩
  | .object (f :: fields), s, h => by
      rw [Text] at h
      obtain ⟨inner, hinner, rfl⟩ := h
      obtain ⟨entries, rfl, hdepth, hsays⟩ := exists_members (f :: fields) hinner (by simp)
      exact ⟨.node .object entries, rfl, by rw [Tree.depth, hdepth, depth], by
        simp only [Says]; exact ⟨rfl, hsays⟩⟩

theorem exists_items : ∀ (items : List Json) {s : Octets}, Items items s → items ≠ [] →
    ∃ entries : Entries .array, entries.octets = s ∧ entries.depth = depthItems items
  | [], _, _, hne => absurd rfl hne
  | v :: items, s, h, _ => by
      rw [Items] at h
      obtain ⟨w, text, w', hw, htext, hw', ⟨rfl, rfl⟩ | ⟨hne, rest, hrest, rfl⟩⟩ := h
      · obtain ⟨tree, rfl, hdepth, -⟩ := exists_tree v htext
        exact ⟨.last (.item ⟨w, hw⟩) tree ⟨w', hw'⟩, rfl, by
          rw [Entries.depth, hdepth]; simp [depthItems]⟩
      · obtain ⟨tree, rfl, hdepth, -⟩ := exists_tree v htext
        obtain ⟨entries, rfl, hentries⟩ := exists_items items hrest hne
        exact ⟨.more (.item ⟨w, hw⟩) tree ⟨w', hw'⟩ entries, rfl, by
          rw [Entries.depth, hdepth, hentries, depthItems]⟩

theorem exists_members : ∀ (fields : List (String × Json)) {s : Octets}, Members fields s →
    fields ≠ [] → ∃ entries : Entries .object, entries.octets = s ∧
      entries.depth = depthFields fields ∧
        SaysMembers fields (entries.items.map fun item => (item.1.key, item.2))
  | [], _, _, hne => absurd rfl hne
  | (key, v) :: fields, s, h, _ => by
      rw [Members] at h
      obtain ⟨w, k, w₁, w₂, text, w', hw, hk, hw₁, hw₂, htext, hw',
        ⟨rfl, rfl⟩ | ⟨hne, rest, hrest, rfl⟩⟩ := h
      · obtain ⟨tree, rfl, hdepth, hsays⟩ := exists_tree v htext
        let head : Head .object := .member ⟨w, hw⟩ ⟨k, tokenText_string hk⟩ ⟨w₁, hw₁⟩ ⟨w₂, hw₂⟩
        refine ⟨.last head tree ⟨w', hw'⟩, by simp [head, Entries.octets, Head.octets], by
          rw [Entries.depth, hdepth]; simp [depthFields], ?_⟩
        simp only [SaysMembers]
        exact ⟨_, _, _, rfl, looseText_of_text hk, hsays, rfl⟩
      · obtain ⟨tree, rfl, hdepth, hsays⟩ := exists_tree v htext
        obtain ⟨entries, rfl, hentries, hmembers⟩ := exists_members fields hrest hne
        let head : Head .object := .member ⟨w, hw⟩ ⟨k, tokenText_string hk⟩ ⟨w₁, hw₁⟩ ⟨w₂, hw₂⟩
        refine ⟨.more head tree ⟨w', hw'⟩ entries, by simp [head, Entries.octets, Head.octets], by
          rw [Entries.depth, hdepth, hentries, depthFields], ?_⟩
        simp only [SaysMembers]
        exact ⟨_, _, _, rfl, looseText_of_text hk, hsays, hmembers⟩

end

/-! ### Values that are printed and read -/

/-- Within a depth, and without numbers beyond 64 bits. -/
def Fits (n : ℕ) (v : Json) : Prop := v.depth ≤ n ∧ Plain v

section Fits

variable {n : ℕ} {items : List Json} {fields : List (String × Json)}

theorem fits_null (n : ℕ) : Fits n .null := ⟨Nat.zero_le n, by simp only [Plain]⟩

theorem fits_string (n : ℕ) (text : String) : Fits n (.string text) :=
  ⟨Nat.zero_le n, by simp only [Plain]⟩

theorem fits_int (n : ℕ) {m : ℤ} (h : Machine m) : Fits n (.int m) :=
  ⟨Nat.zero_le n, by simpa only [Plain] using h⟩

theorem fits_array (h : ∀ v ∈ items, Fits n v) : Fits (n + 1) (.array items) := by
  suffices hall : depthItems items ≤ n ∧ PlainItems items by
    exact ⟨by rw [depth]; omega, by simpa only [Plain] using hall.2⟩
  induction items with
  | nil => exact ⟨Nat.zero_le n, by simp only [PlainItems]⟩
  | cons v items ih =>
    rw [List.forall_mem_cons] at h
    obtain ⟨hdepth, hplain⟩ := ih h.2
    rw [depthItems, PlainItems]
    exact ⟨max_le h.1.1 hdepth, h.1.2, hplain⟩

theorem fits_object (h : ∀ f ∈ fields, Fits n f.2) : Fits (n + 1) (.object fields) := by
  suffices hall : depthFields fields ≤ n ∧ PlainMembers fields by
    exact ⟨by rw [depth]; omega, by simpa only [Plain] using hall.2⟩
  induction fields with
  | nil => exact ⟨Nat.zero_le n, by simp only [PlainMembers]⟩
  | cons f fields ih =>
    obtain ⟨key, v⟩ := f
    rw [List.forall_mem_cons] at h
    obtain ⟨hdepth, hplain⟩ := ih h.2
    rw [depthFields, PlainMembers]
    exact ⟨max_le h.1.1 hdepth, h.1.2, hplain⟩

end Fits

end Json
