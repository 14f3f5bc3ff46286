import EraseMe.Library.JsonText
import EraseMe.Library.Replace
import EraseMe.Library.Utf8Text

/-!
# Texts whose characters are written otherwise

A printed text may be gone over once more, and some characters of its strings written as escapes.
Where every character is left as it is or becomes an escape of itself, and where those that texts
have outside of strings are left (`Rewriting`), what comes out is a text of the same value
(`text_rewrite`).
-/

namespace Json

/-- The octets outside of strings and within escapes. -/
def skeleton : Octets := Utf8.encode "\"\\,:[]{}-0123456789abcdefghijklmnopqrstuvwxyz \n"

/-- What every character is written as. -/
structure Rewriting (f : Char → List Char) : Prop where
  keeps : ∀ b ∈ skeleton, f (Char.ofNat b.toNat) = [Char.ofNat b.toNat]
  escapes : ∀ c, f c = [c] ∨ CharText c (Utf8.encode (String.ofList (f c)))

/-- The text that comes out. -/
def Rewrites (f : Char → List Char) (s s' : Octets) : Prop :=
  ∃ cs, s = Utf8.encode (String.ofList cs) ∧ s' = Utf8.encode (String.ofList (cs.flatMap f))

section Rewrite

variable {f : Char → List Char} {s s' t t' : Octets}

theorem rewrites_nil : Rewrites f [] [] := ⟨[], rfl, rfl⟩

theorem Rewrites.append (h : Rewrites f s s') (h' : Rewrites f t t') :
    Rewrites f (s ++ t) (s' ++ t') := by
  obtain ⟨cs, rfl, rfl⟩ := h
  obtain ⟨ds, rfl, rfl⟩ := h'
  exact ⟨cs ++ ds, (Utf8.encode_ofList_append cs ds).symm, by
    rw [List.flatMap_append, Utf8.encode_ofList_append]⟩

variable (hf : Rewriting f)

include hf

theorem Rewriting.keep {b : UInt8} (hb : b ∈ skeleton) (h : Rewrites f s s') :
    Rewrites f (b :: s) (b :: s') := by
  have hlt : b.toNat < 128 := by
    have hall : ∀ b ∈ skeleton, b.toNat < 128 := by decide +kernel
    exact hall b hb
  have hnat : (Char.ofNat b.toNat).toNat = b.toNat := Utf8.toNat_ofNat_char (by omega)
  have hencode : Utf8.encode (String.ofList [Char.ofNat b.toNat]) = [b] := by
    rw [Utf8.encode_ofList_cons, Utf8.encode_char_of_lt (by omega), hnat, UInt8.ofNat_toNat]
    rfl
  have hone : Rewrites f [b] [b] := ⟨[Char.ofNat b.toNat], hencode.symm, by
    rw [List.flatMap_singleton, hf.keeps b hb, hencode]⟩
  exact hone.append h

theorem Rewriting.keepAll {t : Octets} (ht : ∀ b ∈ t, b ∈ skeleton) (h : Rewrites f s s') :
    Rewrites f (t ++ s) (t ++ s') := by
  induction t with
  | nil => exact h
  | cons b t ih =>
    rw [List.forall_mem_cons] at ht
    exact hf.keep ht.1 (ih ht.2)

theorem Rewriting.char (c : Char) : ∃ t, Rewrites f (printChar c) t ∧ CharText c t := by
  have hkept (ht : ∀ b ∈ printChar c, b ∈ skeleton) :
      ∃ t, Rewrites f (printChar c) t ∧ CharText c t := by
    have hrewrites := hf.keepAll ht rewrites_nil
    rw [List.append_nil] at hrewrites
    exact ⟨_, hrewrites, charText_print c⟩
  by_cases hplain : printChar c = String.utf8EncodeChar c
  · have hencode : Utf8.encode (String.ofList [c]) = String.utf8EncodeChar c := by
      rw [Utf8.encode_ofList_cons]
      exact List.append_nil _
    have hone : Rewrites f (printChar c) (Utf8.encode (String.ofList (f c))) :=
      ⟨[c], by rw [hencode, hplain], by rw [List.flatMap_singleton]⟩
    rcases hf.escapes c with hsame | hescape
    · rw [hsame, hencode, ← hplain] at hone
      exact ⟨_, hone, charText_print c⟩
    · exact ⟨_, hone, hescape⟩
  · refine hkept ?_
    unfold printChar at hplain ⊢
    split_ifs at hplain ⊢ with h1 h2 h3 h4 h5 h6 h7 h8
    · decide +kernel
    · decide +kernel
    · decide +kernel
    · decide +kernel
    · decide +kernel
    · decide +kernel
    · decide +kernel
    · have hall : ∀ n < 32, ∀ b ∈ ([92, 117, 48, 48, Utf8.octet (Nat.digitChar (n / 16)),
          Utf8.octet (Nat.digitChar (n % 16))] : Octets), b ∈ skeleton := by decide +kernel
      exact hall _ h8
    · exact absurd rfl hplain

theorem Rewriting.chars (cs : List Char) :
    ∃ t, Rewrites f (printChars cs) t ∧ CharsText cs t := by
  induction cs with
  | nil => exact ⟨[], rewrites_nil, .nil⟩
  | cons c cs ih =>
    obtain ⟨t, ht, hchar⟩ := hf.char c
    obtain ⟨r, hr, hchars⟩ := ih
    exact ⟨t ++ r, ht.append hr, .cons hchar hchars⟩

theorem Rewriting.string (text : String) :
    ∃ t, Rewrites f (printString text) t ∧ StringText text t := by
  obtain ⟨body, hbody, hchars⟩ := hf.chars text.toList
  refine ⟨34 :: (body ++ [34]), hf.keep (by decide +kernel) (hbody.append ?_), body, hchars, rfl⟩
  exact hf.keep (by decide +kernel) rewrites_nil

theorem Rewriting.int (n : ℤ) (h : Rewrites f s s') :
    Rewrites f (intText n ++ s) (intText n ++ s') := by
  refine hf.keepAll (fun b hb => ?_) h
  have hall : ∀ k < 10, UInt8.ofNat (48 + k) ∈ skeleton := by decide +kernel
  have hdigit (b : UInt8) (hb : 48 ≤ b ∧ b ≤ 57) : b ∈ skeleton := by
    simp only [UInt8.le_iff_toNat_le, UInt8.reduceToNat] at hb
    have hmem := hall (b.toNat - 48) (by omega)
    rwa [show 48 + (b.toNat - 48) = b.toNat by omega, UInt8.ofNat_toNat] at hmem
  unfold intText at hb
  split_ifs at hb
  · rcases List.mem_cons.1 hb with rfl | hb
    · decide +kernel
    · exact hdigit b (digits_range hb)
  · exact hdigit b (digits_range hb)

end Rewrite

/-! ### Printed values -/

section Print

variable {f : Char → List Char} {margin : ℕ → Octets} {space : Octets}

mutual

theorem Rewriting.print (hf : Rewriting f)
    (hmargin : ∀ n, Blank (margin n) ∧ ∀ b ∈ margin n, b ∈ skeleton)
    (hspace : Blank space ∧ ∀ b ∈ space, b ∈ skeleton) (level : ℕ) : ∀ v : Json, Plain v →
      ∃ t, Rewrites f (print margin space level v) t ∧ Text v t
  | .null, _ => by
      simp only [Text, Json.print]
      have hword := hf.keepAll (t := Utf8.encode "null") (by decide +kernel) rewrites_nil
      rw [List.append_nil] at hword
      exact ⟨_, hword, rfl⟩
  | .bool b, _ => by
      simp only [Text, Json.print]
      have hword := hf.keepAll (t := Utf8.encode (if b then "true" else "false"))
        (by cases b <;> decide +kernel) rewrites_nil
      rw [List.append_nil] at hword
      exact ⟨_, hword, rfl⟩
  | .int n, h => by
      simp only [Plain] at h
      simp only [Text, Json.print]
      have hint := hf.int n rewrites_nil
      rw [List.append_nil] at hint
      exact ⟨_, hint, h, rfl⟩
  | .float _ _, h => by simp only [Plain] at h
  | .string text, _ => by
      simp only [Text, Json.print]
      exact hf.string text
  | .array [], _ => by
      simp only [Text, Json.print, Items]
      exact ⟨_, hf.keep (by decide +kernel) (hf.keep (by decide +kernel) rewrites_nil), [],
        blank_nil, rfl⟩
  | .array (v :: items), h => by
      simp only [Plain] at h
      simp only [Text, Json.print]
      obtain ⟨t, ht, hitems⟩ := hf.items hmargin hspace (level + 1) (v :: items) h (by simp)
        (hmargin level).1
      refine ⟨_, hf.keep (by decide +kernel) (ht.append
        (hf.keepAll (hmargin level).2 (hf.keep (by decide +kernel) rewrites_nil))), _, hitems, ?_⟩
      rw [List.append_assoc]
  | .object [], _ => by
      simp only [Text, Json.print, Members]
      exact ⟨_, hf.keep (by decide +kernel) (hf.keep (by decide +kernel) rewrites_nil), [],
        blank_nil, rfl⟩
  | .object (m :: fields), h => by
      simp only [Plain] at h
      simp only [Text, Json.print]
      obtain ⟨t, ht, hmembers⟩ := hf.members hmargin hspace (level + 1) (m :: fields) h
        (by simp) (hmargin level).1
      refine ⟨_, hf.keep (by decide +kernel) (ht.append
        (hf.keepAll (hmargin level).2 (hf.keep (by decide +kernel) rewrites_nil))), _, hmembers, ?_⟩
      rw [List.append_assoc]

/-- With the blanks before the closing bracket. -/
theorem Rewriting.items (hf : Rewriting f)
    (hmargin : ∀ n, Blank (margin n) ∧ ∀ b ∈ margin n, b ∈ skeleton)
    (hspace : Blank space ∧ ∀ b ∈ space, b ∈ skeleton) (level : ℕ) : ∀ items : List Json,
      PlainItems items → items ≠ [] → ∀ {w : Octets}, Blank w →
        ∃ t, Rewrites f (printItems margin space level items) t ∧ Items items (t ++ w)
  | [], _, hne, _, _ => absurd rfl hne
  | [v], h, _, w, hw => by
      simp only [PlainItems] at h
      simp only [Items, printItems]
      obtain ⟨t, ht, htext⟩ := hf.print hmargin hspace level v h.1
      refine ⟨_, hf.keepAll (hmargin level).2 (ht.append rewrites_nil), margin level, t, w,
        (hmargin level).1, htext, hw, Or.inl ⟨trivial, ?_⟩⟩
      simp
  | v :: v' :: items, h, _, w, hw => by
      rw [PlainItems] at h
      rw [printItems]
      obtain ⟨t, ht, htext⟩ := hf.print hmargin hspace level v h.1
      obtain ⟨r, hr, hitems⟩ := hf.items hmargin hspace level (v' :: items) h.2 (by simp) hw
      rw [if_neg (by simp)]
      refine ⟨_, hf.keepAll (hmargin level).2 (ht.append (hf.keep (by decide +kernel) hr)), ?_⟩
      rw [Items]
      refine ⟨margin level, t, [], (hmargin level).1, htext, blank_nil,
        Or.inr ⟨by simp, _, hitems, ?_⟩⟩
      simp

theorem Rewriting.members (hf : Rewriting f)
    (hmargin : ∀ n, Blank (margin n) ∧ ∀ b ∈ margin n, b ∈ skeleton)
    (hspace : Blank space ∧ ∀ b ∈ space, b ∈ skeleton) (level : ℕ) :
    ∀ fields : List (String × Json), PlainMembers fields → fields ≠ [] → ∀ {w : Octets}, Blank w →
      ∃ t, Rewrites f (printMembers margin space level fields) t ∧ Members fields (t ++ w)
  | [], _, hne, _, _ => absurd rfl hne
  | [(key, v)], h, _, w, hw => by
      simp only [PlainMembers] at h
      simp only [Members, printMembers]
      obtain ⟨k, hk, hkey⟩ := hf.string key
      obtain ⟨t, ht, htext⟩ := hf.print hmargin hspace level v h.1
      refine ⟨_, hf.keepAll (hmargin level).2 (hk.append (hf.keep (by decide +kernel)
        (hf.keepAll hspace.2 (ht.append rewrites_nil)))), margin level, k, [], space, t, w,
        (hmargin level).1, hkey, blank_nil, hspace.1, htext, hw, Or.inl ⟨trivial, ?_⟩⟩
      simp
  | (key, v) :: m :: fields, h, _, w, hw => by
      rw [PlainMembers] at h
      rw [printMembers]
      obtain ⟨k, hk, hkey⟩ := hf.string key
      obtain ⟨t, ht, htext⟩ := hf.print hmargin hspace level v h.1
      obtain ⟨r, hr, hmembers⟩ := hf.members hmargin hspace level (m :: fields) h.2
        (by simp) hw
      rw [if_neg (by simp)]
      refine ⟨_, hf.keepAll (hmargin level).2 (hk.append (hf.keep (by decide +kernel)
        (hf.keepAll hspace.2 (ht.append (hf.keep (by decide +kernel) hr))))), ?_⟩
      rw [Members]
      refine ⟨margin level, k, [], space, t, [], (hmargin level).1, hkey, blank_nil, hspace.1,
        htext, blank_nil, Or.inr ⟨by simp, _, hmembers, ?_⟩⟩
      simp

end

/-- What a printed text becomes is a text of the same value. -/
theorem text_rewrite (hf : Rewriting f) {v : Json} (hv : Plain v) :
    ∃ cs, Utf8.decode (pretty v) = some cs ∧ Text v (Utf8.encode (String.ofList (cs.flatMap f))) := by
  have hmargin (n : ℕ) : Blank (10 :: List.replicate (2 * n) 32) ∧
      ∀ b ∈ (10 :: List.replicate (2 * n) 32 : Octets), b ∈ skeleton := by
    refine ⟨fun b hb => ?_, fun b hb => ?_⟩ <;> rcases List.mem_cons.1 hb with rfl | hb
    · rfl
    · rw [List.eq_of_mem_replicate hb]
      rfl
    · decide +kernel
    · rw [List.eq_of_mem_replicate hb]
      decide +kernel
  have hspace : Blank [32] ∧ ∀ b ∈ ([32] : Octets), b ∈ skeleton :=
    ⟨fun b hb => by rw [List.mem_singleton.1 hb]; rfl, by decide +kernel⟩
  obtain ⟨t, ⟨cs, hcs, rfl⟩, htext⟩ := hf.print hmargin hspace 0 v hv
  exact ⟨cs, by rw [pretty, hcs, Utf8.decode_encode], htext⟩

end Print

/-! ### One character at a time -/

theorem replaceAll_singleton (c : Char) (marker s : List Char) :
    Text.replaceAll s [c] marker = s.flatMap fun d => if d = c then marker else [d] := by
  induction s with
  | nil => rfl
  | cons d s ih =>
    by_cases hd : d = c
    · subst hd
      rw [show d :: s = [d] ++ s from rfl, Text.replaceAll_token (by simp), ih]
      simp
    · rw [Text.replaceAll_cons (by simpa using Ne.symm hd), ih]
      simp [hd]

end Json
