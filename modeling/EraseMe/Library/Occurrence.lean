import EraseMe.Library.Paths

/-!
# Where a pattern occurs

What `find` and `after` do on a text of which a first part is known, and the words and numbers at
the start of a text.
-/

namespace Text

section Find

variable {α : Type} {pattern a s : List α}

/-- The pattern starts nowhere in `a`. -/
def Apart (pattern a s : List α) : Prop := ∀ v, v <:+ a → v ≠ [] → ¬ pattern <+: v ++ s

theorem Apart.tail {c : α} (h : Apart pattern (c :: a) s) : Apart pattern a s :=
  fun v hv => h v (hv.trans (List.suffix_cons c a))

/-- A pattern does not start in a text without its first element. -/
theorem apart_of_head {c : α} (h : c ∉ a) : Apart (c :: pattern) a s := by
  rintro v hv hne ⟨r, hr⟩
  cases v with
  | nil => exact hne rfl
  | cons d v =>
    rw [List.cons_append, List.cons_append, List.cons.injEq] at hr
    exact h (hr.1 ▸ hv.subset List.mem_cons_self)

/-- A pattern does not start in a text that lacks one of its elements and ends with a stranger. -/
theorem apart_of_stranger {c d : α} (hc : c ∈ pattern) (ha : c ∉ a) (hd : d ∉ pattern) :
    Apart pattern (a ++ [d]) s := by
  rintro v hv hne hprefix
  have hd' : d ≠ c := by
    rintro rfl
    exact hd hc
  rcases List.prefix_or_prefix_of_prefix hprefix (List.prefix_append v s) with hinside | hover
  · have hmem := hv.subset (hinside.subset hc)
    rw [List.mem_append, List.mem_singleton] at hmem
    exact hmem.elim ha fun h => hd' h.symm
  · obtain ⟨w, hw⟩ := hv
    have hlast : v.getLast hne = d := by
      have hl := List.getLast_append_of_right_ne_nil w v hne
      simp only [hw, List.getLast_append, List.getLast_singleton] at hl
      simpa using hl.symm
    exact hd (hlast ▸ hover.subset (List.getLast_mem hne))

theorem not_mem_of_apart {c : α} (h : Apart [c] a s) : c ∉ a := by
  intro hc
  obtain ⟨u, w, rfl⟩ := List.append_of_mem hc
  exact h (c :: w) (List.suffix_append u (c :: w)) (by simp) ⟨w ++ s, rfl⟩

theorem apart_cons {c : α} (h : ¬ pattern <+: c :: (a ++ s)) (ha : Apart pattern a s) :
    Apart pattern (c :: a) s := by
  intro v hv hne
  rcases List.suffix_cons_iff.1 hv with rfl | hv
  · exact h
  · exact ha v hv hne

theorem Apart.append {b : List α} (ha : Apart pattern a (b ++ s)) (hb : Apart pattern b s) :
    Apart pattern (a ++ b) s := by
  induction a with
  | nil => exact hb
  | cons c a ih =>
    have hhead := ha (c :: a) List.suffix_rfl (by simp)
    rw [List.cons_append, ← List.append_assoc] at hhead
    exact apart_cons hhead (ih ha.tail)

/-- A pattern that is not in a text does not start in it, if a stranger to it comes next. -/
theorem apart_of_not_infix {d : α} (h : ¬ pattern <:+: a) (hd : d ∉ pattern) :
    Apart pattern a (d :: s) := by
  rintro v hv hne hprefix
  rcases List.prefix_or_prefix_of_prefix hprefix (List.prefix_append v (d :: s)) with hinside | hover
  · exact h (hinside.isInfix.trans hv.isInfix)
  · obtain ⟨w, hw⟩ := hover
    rw [← hw, List.prefix_append_right_inj] at hprefix
    cases w with
    | nil =>
      rw [List.append_nil] at hw
      exact h (hw ▸ hv.isInfix)
    | cons e w =>
      obtain ⟨r, hr⟩ := hprefix
      rw [List.cons_append, List.cons.injEq] at hr
      apply hd
      rw [← hw, ← hr.1]
      simp

/-- Before its own first element a pair of two elements does not start in a text without it. -/
theorem apart_pair_iff {c d : α} (hne : c ≠ d) : Apart [c, d] a (c :: s) ↔ ¬ [c, d] <:+: a := by
  constructor
  · rintro h ⟨u, w, rfl⟩
    exact h ([c, d] ++ w) ⟨u, (List.append_assoc ..).symm⟩ (by simp) ⟨w ++ c :: s, by simp⟩
  · rintro h v hv hnil ⟨r, hr⟩
    match v with
    | [] => exact hnil rfl
    | [e] =>
      simp only [List.cons_append, List.nil_append, List.cons.injEq] at hr
      exact hne hr.2.1.symm
    | e :: f :: v =>
      simp only [List.cons_append, List.nil_append, List.cons.injEq] at hr
      obtain ⟨rfl, rfl, -⟩ := hr
      exact h ((List.prefix_append [c, d] v).isInfix.trans hv.isInfix)

variable [DecidableEq α]

theorem find_cons_of_not {c : α} (h : ¬ pattern <+: c :: s) :
    find pattern (c :: s) = (find pattern s).map (· + 1) := by
  rw [find, if_neg (by simpa using h)]

theorem find_self (pattern s : List α) : find pattern (pattern ++ s) = some 0 := by
  cases h : pattern ++ s with
  | nil =>
    rw [List.append_eq_nil_iff] at h
    simp [find, h.1]
  | cons c r =>
    have hprefix : pattern <+: c :: r := h ▸ List.prefix_append pattern s
    rw [find, if_pos (by simpa using hprefix)]

theorem find_append (h : Apart pattern a s) :
    find pattern (a ++ s) = (find pattern s).map (· + a.length) := by
  induction a with
  | nil => simp
  | cons c a ih =>
    have hhead : ¬ pattern <+: c :: (a ++ s) := h (c :: a) List.suffix_rfl (by simp)
    rw [List.cons_append, find_cons_of_not hhead, ih h.tail, Option.map_map]
    rfl

theorem after_append (h : Apart pattern a s) : after pattern (a ++ s) = after pattern s := by
  rw [after, after, find_append h, Option.map_map]
  congr 1
  funext n
  have hlength : n + a.length + pattern.length = a.length + (n + pattern.length) := by omega
  simp only [Function.comp_apply, hlength, List.drop_length_add_append]

theorem after_self (pattern s : List α) : after pattern (pattern ++ s) = some s := by
  rw [after, find_self, Option.map_some, Nat.zero_add, List.drop_left]

theorem isSome_find : (find pattern s).isSome = true ↔ pattern <:+: s := by
  induction s with
  | nil =>
    by_cases h : pattern = []
    · simp [find, h]
    · simp [find, h]
  | cons c s ih =>
    by_cases h : pattern <+: c :: s
    · rw [find, if_pos (by simpa using h)]
      simp [h.isInfix]
    · rw [find_cons_of_not h, Option.isSome_map, ih, List.infix_cons_iff]
      simp [h]

/-- What comes before the first occurrence, and after it. -/
theorem after_eq_some {r : List α} (h : after pattern s = some r) :
    ∃ a, s = a ++ (pattern ++ r) ∧ Apart pattern a (pattern ++ r) := by
  induction s with
  | nil =>
    rw [after, find] at h
    split_ifs at h with hpattern
    · cases h
      refine ⟨[], by simp [hpattern], fun v hv hne => ?_⟩
      exact absurd (List.suffix_nil.1 hv) hne
    · cases h
  | cons c s ih =>
    by_cases hprefix : pattern <+: c :: s
    · obtain ⟨t, ht⟩ := hprefix
      rw [← ht, after_self] at h
      cases h
      refine ⟨[], by simp [ht], fun v hv hne => ?_⟩
      exact absurd (List.suffix_nil.1 hv) hne
    · have hs : after pattern s = some r := by
        rw [after, find_cons_of_not hprefix, Option.map_map] at h
        rw [after, ← h]
        congr 1
        funext n
        simp [Nat.add_right_comm n 1]
      obtain ⟨a, rfl, hapart⟩ := ih hs
      refine ⟨c :: a, rfl, fun v hv hne => ?_⟩
      rcases List.suffix_cons_iff.1 hv with rfl | hv
      · exact hprefix
      · exact hapart v hv hne

/-- What follows the text follows the rest. -/
theorem after_append_of_some {r : List α} (h : after pattern s = some r) (t : List α) :
    after pattern (s ++ t) = some (r ++ t) := by
  obtain ⟨a, rfl, hapart⟩ := after_eq_some h
  have hapart' : Apart pattern a (pattern ++ (r ++ t)) := by
    intro v hv hne hprefix
    refine hapart v hv hne (List.prefix_of_prefix_length_le hprefix ?_ ?_)
    · exact (List.prefix_append_right_inj v).2
        ((List.prefix_append_right_inj pattern).2 (List.prefix_append r t))
    · simp only [List.length_append]
      omega
  rw [List.append_assoc, List.append_assoc, after_append hapart', after_self]

theorem after_eq_none : after pattern s = none ↔ ¬ pattern <:+: s := by
  rw [after, Option.map_eq_none_iff, ← isSome_find, Option.not_isSome_iff_eq_none]

/-- A text without the pattern, or split at its first occurrence. -/
theorem find_cases (pattern s : List α) :
    (find pattern s = none ∧ ¬ pattern <:+: s) ∨
      ∃ a r, s = a ++ (pattern ++ r) ∧ Apart pattern a (pattern ++ r) ∧
        find pattern s = some a.length := by
  cases hafter : after pattern s with
  | none => exact Or.inl ⟨Option.map_eq_none_iff.1 hafter, after_eq_none.1 hafter⟩
  | some r =>
    obtain ⟨a, rfl, hapart⟩ := after_eq_some hafter
    refine Or.inr ⟨a, r, rfl, hapart, ?_⟩
    rw [find_append hapart, find_self, Option.map_some, Nat.zero_add]

end Find

theorem contains_iff {pattern s : List Char} : contains pattern s = true ↔ pattern <:+: s :=
  isSome_find

/-! ### The first and the last separator -/

section Last

variable {sep : Char} {a s : List Char}

theorem splitOnce_append (h : sep ∉ a) (s : List Char) :
    splitOnce sep (a ++ sep :: s) = some (a, s) := by
  have ha : ∀ c ∈ a, (c != sep) = true := fun c hc => by
    rw [bne_iff_ne]
    rintro rfl
    exact h hc
  rw [splitOnce, if_pos (by simp), List.takeWhile_append_of_pos ha,
    List.dropWhile_append_of_pos ha]
  simp

theorem rsplitOnce_self (h : sep ∉ s) : rsplitOnce sep (a ++ sep :: s) = some (a, s) := by
  have hreverse : (a ++ sep :: s).reverse = s.reverse ++ sep :: a.reverse := by simp
  rw [rsplitOnce, hreverse, splitOnce_append (by simpa using h)]
  simp

/-- What comes before all separators stays in front. -/
theorem rsplitOnce_append (h : sep ∉ a) :
    rsplitOnce sep (a ++ s) = (rsplitOnce sep s).map fun p => (a ++ p.1, p.2) := by
  by_cases hs : sep ∈ s
  · obtain ⟨t, r, hr, hreverse⟩ := List.eq_append_cons_of_mem (List.mem_reverse.2 hs)
    have hsplit : s = r.reverse ++ sep :: t.reverse := by
      rw [← List.reverse_reverse s, hr]
      simp
    have ht : sep ∉ t.reverse := by simpa using hreverse
    rw [hsplit, ← List.append_assoc, rsplitOnce_self ht, rsplitOnce_self ht, Option.map_some]
  · simp [rsplitOnce, splitOnce, hs, h]

end Last

/-! ### Words -/

/-- A word: neither empty nor with white space in it. -/
def IsWord (w : List Char) : Prop := w ≠ [] ∧ ∀ c ∈ w, isWhitespace c = false

theorem map_blank_of_isWord {w : List Char} (h : IsWord w) :
    (w.map fun c => if isWhitespace c then ' ' else c) = w := by
  refine (List.map_congr_left fun c hc => ?_).trans (List.map_id w)
  simp [h.2 c hc]

theorem space_not_mem_of_isWord {w : List Char} (h : IsWord w) : ' ' ∉ w := by
  intro hmem
  have hblank := h.2 ' ' hmem
  simp [isWhitespace] at hblank

theorem splitWhitespace_append {w : List Char} (h : IsWord w) {c : Char}
    (hc : isWhitespace c = true) (s : List Char) :
    splitWhitespace (w ++ c :: s) = w :: splitWhitespace s := by
  rw [splitWhitespace, List.map_append, map_blank_of_isWord h, List.map_cons, if_pos hc,
    Paths.splitOn_append_sep, Paths.splitOn_of_not_mem (space_not_mem_of_isWord h)]
  simp [splitWhitespace, h.1]

theorem splitWhitespace_of_isWord {w : List Char} (h : IsWord w) : splitWhitespace w = [w] := by
  rw [splitWhitespace, map_blank_of_isWord h,
    Paths.splitOn_of_not_mem (space_not_mem_of_isWord h)]
  simp [h.1]

/-- Words with blanks between them. -/
theorem splitWhitespace_intercalate {ws : List (List Char)} (h : ∀ w ∈ ws, IsWord w) :
    splitWhitespace ([' '].intercalate ws) = ws := by
  induction ws with
  | nil => rfl
  | cons w ws ih =>
    rw [List.forall_mem_cons] at h
    cases ws with
    | nil => simpa using splitWhitespace_of_isWord h.1
    | cons v ws =>
      rw [List.intercalate_cons_cons, List.append_assoc, List.singleton_append,
        splitWhitespace_append h.1 rfl, ih h.2]

/-! ### Numbers -/

theorem isDigit_of_mem_toDigits {n : ℕ} {c : Char} (h : c ∈ Nat.toDigits 10 n) :
    c.isDigit = true := Nat.isDigit_of_mem_toDigits (by decide) (by decide) h

theorem not_mem_toDigits {n : ℕ} {c : Char} (h : c.isDigit = false) : c ∉ Nat.toDigits 10 n := by
  intro hmem
  rw [isDigit_of_mem_toDigits hmem] at h
  cases h

theorem isWord_toDigits (n : ℕ) : IsWord (Nat.toDigits 10 n) :=
  ⟨Nat.toDigits_ne_nil, fun _ hc => isWhitespace_of_isDigit (isDigit_of_mem_toDigits hc)⟩

/-- The digits of a number are read as the number. -/
theorem parseUnsigned_toDigits {max n : ℕ} (h : n ≤ max) :
    parseUnsigned max (Nat.toDigits 10 n) = some n := by
  have hdigits : (Nat.toDigits 10 n).all Char.isDigit = true :=
    List.all_eq_true.2 fun _ hc => isDigit_of_mem_toDigits hc
  have hhead : (Nat.toDigits 10 n).head? ≠ some '+' := by
    intro hplus
    have hmem := isDigit_of_mem_toDigits (List.mem_of_mem_head? hplus)
    revert hmem
    decide
  have hvalue : (Nat.toDigits 10 n).foldl (fun n c => n * 10 + Decimal.value c) 0 = n := by
    have hfold := Nat.ofDigitChars_ten_toDigits (n := n)
    rw [Nat.ofDigitChars_eq_foldl] at hfold
    have hstep : (fun n c => n * 10 + Decimal.value c) =
        fun (k : ℕ) (c : Char) => 10 * k + (c.toNat - '0'.toNat) := by
      funext k c
      rw [Nat.mul_comm k 10]
      rfl
    rw [hstep, hfold]
  simp only [parseUnsigned, if_neg hhead, hvalue, hdigits, ne_eq, Nat.toDigits_ne_nil,
    not_false_eq_true, and_self, if_true, if_pos h]

end Text
