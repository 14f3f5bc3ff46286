import EraseMe.Library.Occurrence
import EraseMe.Library.Utf8Text

/-!
# Slices of a text by octets

A text is cut at an octet offset, which is the end of a character or of no use (`cut`).  An offset
that is the size of a first part of the text cuts that part off (`cut_append`), and searches answer
with such offsets (`offset_append`).
-/

namespace Slices

/-- How many octets a text is. -/
def size (s : List Char) : ℕ := (s.map Char.utf8Size).sum

/-- The text before and after an offset: nothing inside a character or past the end. -/
def cut : ℕ → List Char → Option (List Char × List Char)
  | 0, s => some ([], s)
  | _ + 1, [] => none
  | n + 1, c :: s =>
      if c.utf8Size ≤ n + 1 then
        (cut (n + 1 - c.utf8Size) s).map fun (head, rest) => (c :: head, rest)
      else none

/-- `&s[i..]` -/
def sliceFrom (i : ℕ) (s : List Char) : Option (List Char) := (cut i s).map Prod.snd

/-- `&s[i..j]` -/
def slice (i j : ℕ) (s : List Char) : Option (List Char) :=
  (cut j s).bind fun (head, _) => sliceFrom i head

/-- The octets of a text. -/
def octets (s : List Char) : List UInt8 := s.flatMap String.utf8EncodeChar

/-- `find` with a pattern. -/
def find (pattern s : List Char) : Option ℕ := (Text.find pattern s).map fun n => size (s.take n)

/-- `find` with a property of characters. -/
def offset (p : Char → Bool) (s : List Char) : Option ℕ :=
  if s.any p then some (size (s.takeWhile fun c => !p c)) else none

variable {s t : List Char}

@[simp] theorem size_nil : size [] = 0 := rfl

@[simp] theorem size_cons (c : Char) (s : List Char) : size (c :: s) = c.utf8Size + size s := by
  simp [size]

@[simp] theorem size_append (s t : List Char) : size (s ++ t) = size s + size t := by
  simp [size]

theorem length_le_size (s : List Char) : s.length ≤ size s := by
  induction s with
  | nil => exact le_rfl
  | cons c s ih =>
    have hpos := c.utf8Size_pos
    rw [List.length_cons, size_cons]
    omega

theorem cut_append (s t : List Char) : cut (size s) (s ++ t) = some (s, t) := by
  induction s with
  | nil => cases t <;> rfl
  | cons c s ih =>
    have hpos := c.utf8Size_pos
    obtain ⟨n, hn⟩ : ∃ n, size (c :: s) = n + 1 := ⟨size (c :: s) - 1, by simp; omega⟩
    have hle : c.utf8Size ≤ n + 1 := by
      rw [← hn]
      simp
    have hrest : n + 1 - c.utf8Size = size s := by
      rw [← hn]
      simp
    rw [hn, List.cons_append, cut, if_pos hle, hrest, ih]
    rfl

theorem sliceFrom_append (s t : List Char) : sliceFrom (size s) (s ++ t) = some t := by
  rw [sliceFrom, cut_append]
  rfl

theorem slice_append (a s t : List Char) :
    slice (size a) (size a + size s) (a ++ (s ++ t)) = some s := by
  rw [slice, ← size_append, ← List.append_assoc, cut_append]
  exact sliceFrom_append a s

theorem find_append {pattern a : List Char} (h : Text.Apart pattern a (pattern ++ s)) :
    find pattern (a ++ (pattern ++ s)) = some (size a) := by
  rw [find, Text.find_append h, Text.find_self]
  simp

theorem find_eq_none {pattern : List Char} : find pattern s = none ↔ ¬ pattern <:+: s := by
  rw [find, Option.map_eq_none_iff, ← Text.isSome_find, Option.not_isSome_iff_eq_none]

/-- The first part without the property ends where a search for it ends. -/
theorem offset_getD (p : Char → Bool) (s : List Char) :
    (offset p s).getD (size s) = size (s.takeWhile fun c => !p c) := by
  rw [offset]
  split_ifs with h
  · rfl
  · have hall : ∀ c ∈ s, (!p c) = true := by simpa using h
    rw [List.takeWhile_eq_self_iff.2 hall]
    rfl

/-- A text falls apart where a search for a property ends. -/
theorem exists_offset (p : Char → Bool) (s : List Char) :
    ∃ a r, s.takeWhile (fun c => !p c) = a ∧ s = a ++ r ∧ (∀ c ∈ a, p c = false) ∧
      ∀ c ∈ r.head?, p c = true := by
  refine ⟨s.takeWhile fun c => !p c, s.dropWhile fun c => !p c, rfl,
    List.takeWhile_append_dropWhile.symm, fun c hc => ?_, fun c hc => ?_⟩
  · simpa using List.mem_takeWhile_imp hc
  · have hdrop := List.head?_dropWhile_not (fun c => !p c) s
    rw [hc] at hdrop
    simpa using hdrop

/-- The two parts are found again. -/
theorem takeWhile_append_of {p : Char → Bool} (hs : ∀ c ∈ s, p c = false)
    (ht : ∀ c ∈ t.head?, p c = true) :
    (s ++ t).takeWhile (fun c => !p c) = s ∧ (s ++ t).dropWhile (fun c => !p c) = t := by
  have hpos : ∀ c ∈ s, (!p c) = true := fun c hc => by rw [hs c hc, Bool.not_false]
  rw [List.takeWhile_append_of_pos hpos, List.dropWhile_append_of_pos hpos]
  cases t with
  | nil => simp
  | cons c t =>
    have hc : (!p c) = false := by rw [ht c rfl, Bool.not_true]
    rw [List.takeWhile_cons, List.dropWhile_cons, hc]
    simp

/-- Where a part ends that goes up to a property or to the end of the text. -/
theorem end_eq (p : Char → Bool) (a s : List Char) :
    ((offset p s).map (size a + ·)).getD (size (a ++ s)) =
      size a + size (s.takeWhile fun c => !p c) := by
  rw [← offset_getD]
  cases offset p s with
  | none => rw [size_append, Option.map_none, Option.getD_none, Option.getD_none]
  | some n => rw [Option.map_some, Option.getD_some, Option.getD_some]

/-! ### Octets -/

@[simp] theorem octets_nil : octets [] = [] := rfl

theorem octets_cons (c : Char) (s : List Char) :
    octets (c :: s) = String.utf8EncodeChar c ++ octets s := List.flatMap_cons

@[simp] theorem octets_append (s t : List Char) : octets (s ++ t) = octets s ++ octets t :=
  List.flatMap_append

@[simp] theorem length_octets (s : List Char) : (octets s).length = size s := by
  induction s with
  | nil => rfl
  | cons c s ih => rw [octets_cons, List.length_append, ih, size_cons, String.length_utf8EncodeChar]

/-- An ASCII octet stands for its character. -/
theorem mem_octets {b : UInt8} (hb : b < 0x80) (h : b ∈ octets s) :
    Char.ofNat b.toNat ∈ s := by
  refine Utf8.mem_of_mem_encode hb ?_
  rwa [Utf8.encode, String.toList_ofList]

/-- A text that starts with an ASCII octet starts with its character. -/
theorem eq_cons_of_octets {b : UInt8} (hb : b < 0x80) {r : List UInt8} (h : octets s = b :: r) :
    ∃ t, s = Char.ofNat b.toNat :: t ∧ octets t = r := by
  cases s with
  | nil => cases h
  | cons c s =>
    have hnext := Utf8.next_encode c (octets s)
    have hfirst : Utf8.next (b :: r) = (some (Char.ofNat b.toNat), 1) := if_pos hb
    rw [← octets_cons, h, hfirst, Prod.mk.injEq, Option.some.injEq] at hnext
    refine ⟨s, by rw [hnext.1], ?_⟩
    have hone : (String.utf8EncodeChar c).length = 1 := hnext.2.symm
    obtain ⟨a, ha⟩ := List.length_eq_one_iff.1 hone
    rw [octets_cons, ha, List.singleton_append, List.cons.injEq] at h
    exact h.2

end Slices
