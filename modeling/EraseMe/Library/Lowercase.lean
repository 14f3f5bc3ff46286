import EraseMe.Library.Octets
import Mathlib.Tactic

/-!
# Lower case

The lower case of a text: of each character by the tables of Unicode 17, and of a capital sigma by
what is around it.  A text that starts in lower case with ASCII letters, `é` or `:` starts with
these or with their capitals, which are as many octets (`exists_anyCase`, `size_anyCase`).
-/

namespace Lowercase

/-- From the first to the last character in steps, how far off the lower case is. -/
def runs : List (ℕ × ℕ × ℕ × ℤ) :=
  [(65, 90, 1, 32), (192, 214, 1, 32), (216, 222, 1, 32), (256, 302, 2, 1), (306, 310, 2, 1),
    (313, 327, 2, 1), (330, 374, 2, 1), (376, 376, 1, -121), (377, 381, 2, 1), (385, 385, 1, 210),
    (386, 388, 2, 1), (390, 390, 1, 206), (391, 391, 1, 1), (393, 394, 1, 205), (395, 395, 1, 1),
    (398, 398, 1, 79), (399, 399, 1, 202), (400, 400, 1, 203), (401, 401, 1, 1), (403, 403, 1, 205),
    (404, 404, 1, 207), (406, 406, 1, 211), (407, 407, 1, 209), (408, 408, 1, 1),
    (412, 412, 1, 211), (413, 413, 1, 213), (415, 415, 1, 214), (416, 420, 2, 1),
    (422, 422, 1, 218), (423, 423, 1, 1), (425, 425, 1, 218), (428, 428, 1, 1), (430, 430, 1, 218),
    (431, 431, 1, 1), (433, 434, 1, 217), (435, 437, 2, 1), (439, 439, 1, 219), (440, 440, 1, 1),
    (444, 444, 1, 1), (452, 452, 1, 2), (453, 453, 1, 1), (455, 455, 1, 2), (456, 456, 1, 1),
    (458, 458, 1, 2), (459, 475, 2, 1), (478, 494, 2, 1), (497, 497, 1, 2), (498, 500, 2, 1),
    (502, 502, 1, -97), (503, 503, 1, -56), (504, 542, 2, 1), (544, 544, 1, -130), (546, 562, 2, 1),
    (570, 570, 1, 10795), (571, 571, 1, 1), (573, 573, 1, -163), (574, 574, 1, 10792),
    (577, 577, 1, 1), (579, 579, 1, -195), (580, 580, 1, 69), (581, 581, 1, 71), (582, 590, 2, 1),
    (880, 882, 2, 1), (886, 886, 1, 1), (895, 895, 1, 116), (902, 902, 1, 38), (904, 906, 1, 37),
    (908, 908, 1, 64), (910, 911, 1, 63), (913, 929, 1, 32), (932, 939, 1, 32), (975, 975, 1, 8),
    (984, 1006, 2, 1), (1012, 1012, 1, -60), (1015, 1015, 1, 1), (1017, 1017, 1, -7),
    (1018, 1018, 1, 1), (1021, 1023, 1, -130), (1024, 1039, 1, 80), (1040, 1071, 1, 32),
    (1120, 1152, 2, 1), (1162, 1214, 2, 1), (1216, 1216, 1, 15), (1217, 1229, 2, 1),
    (1232, 1326, 2, 1), (1329, 1366, 1, 48), (4256, 4293, 1, 7264), (4295, 4295, 1, 7264),
    (4301, 4301, 1, 7264), (5024, 5103, 1, 38864), (5104, 5109, 1, 8), (7305, 7305, 1, 1),
    (7312, 7354, 1, -3008), (7357, 7359, 1, -3008), (7680, 7828, 2, 1), (7838, 7838, 1, -7615),
    (7840, 7934, 2, 1), (7944, 7951, 1, -8), (7960, 7965, 1, -8), (7976, 7983, 1, -8),
    (7992, 7999, 1, -8), (8008, 8013, 1, -8), (8025, 8031, 2, -8), (8040, 8047, 1, -8),
    (8072, 8079, 1, -8), (8088, 8095, 1, -8), (8104, 8111, 1, -8), (8120, 8121, 1, -8),
    (8122, 8123, 1, -74), (8124, 8124, 1, -9), (8136, 8139, 1, -86), (8140, 8140, 1, -9),
    (8152, 8153, 1, -8), (8154, 8155, 1, -100), (8168, 8169, 1, -8), (8170, 8171, 1, -112),
    (8172, 8172, 1, -7), (8184, 8185, 1, -128), (8186, 8187, 1, -126), (8188, 8188, 1, -9),
    (8486, 8486, 1, -7517), (8490, 8490, 1, -8383), (8491, 8491, 1, -8262), (8498, 8498, 1, 28),
    (8544, 8559, 1, 16), (8579, 8579, 1, 1), (9398, 9423, 1, 26), (11264, 11311, 1, 48),
    (11360, 11360, 1, 1), (11362, 11362, 1, -10743), (11363, 11363, 1, -3814),
    (11364, 11364, 1, -10727), (11367, 11371, 2, 1), (11373, 11373, 1, -10780),
    (11374, 11374, 1, -10749), (11375, 11375, 1, -10783), (11376, 11376, 1, -10782),
    (11378, 11378, 1, 1), (11381, 11381, 1, 1), (11390, 11391, 1, -10815), (11392, 11490, 2, 1),
    (11499, 11501, 2, 1), (11506, 11506, 1, 1), (42560, 42604, 2, 1), (42624, 42650, 2, 1),
    (42786, 42798, 2, 1), (42802, 42862, 2, 1), (42873, 42875, 2, 1), (42877, 42877, 1, -35332),
    (42878, 42886, 2, 1), (42891, 42891, 1, 1), (42893, 42893, 1, -42280), (42896, 42898, 2, 1),
    (42902, 42920, 2, 1), (42922, 42922, 1, -42308), (42923, 42923, 1, -42319),
    (42924, 42924, 1, -42315), (42925, 42925, 1, -42305), (42926, 42926, 1, -42308),
    (42928, 42928, 1, -42258), (42929, 42929, 1, -42282), (42930, 42930, 1, -42261),
    (42931, 42931, 1, 928), (42932, 42946, 2, 1), (42948, 42948, 1, -48), (42949, 42949, 1, -42307),
    (42950, 42950, 1, -35384), (42951, 42953, 2, 1), (42955, 42955, 1, -42343),
    (42956, 42970, 2, 1), (42972, 42972, 1, -42561), (42997, 42997, 1, 1), (65313, 65338, 1, 32),
    (66560, 66599, 1, 40), (66736, 66771, 1, 40), (66928, 66938, 1, 39), (66940, 66954, 1, 39),
    (66956, 66962, 1, 39), (66964, 66965, 1, 39), (68736, 68786, 1, 64), (68944, 68965, 1, 32),
    (71840, 71871, 1, 32), (93760, 93791, 1, 32), (93856, 93880, 1, 27), (125184, 125217, 1, 34)]

/-- The offset to the lower case. -/
def offset (n : ℕ) : ℤ :=
  match runs.find? fun run => run.1 ≤ n ∧ n ≤ run.2.1 ∧ (n - run.1) % run.2.2.1 = 0 with
  | some run => run.2.2.2
  | none => 0

/-- `char::to_lowercase`, but for the sigma; only the dotted capital I becomes two characters. -/
def charLower (c : Char) : List Char :=
  if c.toNat = 0x130 then ['i', Char.ofNat 0x307]
  else [Char.ofNat (c.toNat + offset c.toNat).toNat]

/-- `str::to_lowercase` after `before`; `final` says where a capital sigma ends a word. -/
def lowerFrom (final : List Char → List Char → Bool) (before : List Char) : List Char → List Char
  | [] => []
  | c :: s =>
      (if c.toNat = 0x3A3 then [if final before s then Char.ofNat 0x3C2 else Char.ofNat 0x3C3]
        else charLower c) ++ lowerFrom final (before ++ [c]) s

/-- The text in lower case. -/
def toLowercase (final : List Char → List Char → Bool) (s : List Char) : List Char :=
  lowerFrom final [] s

/-! ### Letters that nothing else becomes -/

/-- The capital of an ASCII or Latin-1 letter. -/
def capital (d : Char) : Char := Char.ofNat (d.toNat - 32)

/-- A character in lower case that only comes from itself and, if at all, from the character 32 before
it, which is as many octets. -/
structure IsStable (d : Char) : Prop where
  ne_zero : d.toNat ≠ 0
  ne_i : d ≠ 'i'
  ne_sigma : d.toNat ≠ 0x3C2 ∧ d.toNat ≠ 0x3C3
  ne_capital_sigma : d.toNat ≠ 0x3A3
  charLower_self : charLower d = [d]
  offset_eq : ∀ run ∈ runs, run.1 + run.2.2.2 ≤ (d.toNat : ℤ) →
    (d.toNat : ℤ) ≤ run.2.1 + run.2.2.2 → run.2.2.2 = 32
  utf8Size_capital : (capital d).utf8Size = d.utf8Size

theorem isStable_of_mem {d : Char} (h : d ∈ "refwdantosvgé:".toList) : IsStable d := by
  have hzero : ∀ d ∈ "refwdantosvgé:".toList, d.toNat ≠ 0 := by decide +kernel
  have hi : ∀ d ∈ "refwdantosvgé:".toList, d ≠ 'i' := by decide +kernel
  have hsigma : ∀ d ∈ "refwdantosvgé:".toList, d.toNat < 0x3A3 := by decide +kernel
  have hself : ∀ d ∈ "refwdantosvgé:".toList, charLower d = [d] := by decide +kernel
  have hoffset : ∀ d ∈ "refwdantosvgé:".toList, ∀ run ∈ runs,
      run.1 + run.2.2.2 ≤ (d.toNat : ℤ) → (d.toNat : ℤ) ≤ run.2.1 + run.2.2.2 →
        run.2.2.2 = 32 := by decide +kernel
  have hsize : ∀ d ∈ "refwdantosvgé:".toList, (capital d).utf8Size = d.utf8Size := by
    decide +kernel
  have hlt := hsigma d h
  exact ⟨hzero d h, hi d h, ⟨by omega, by omega⟩, by omega, hself d h, hoffset d h, hsize d h⟩

/-- What becomes a stable character is that character or its capital. -/
theorem eq_or_capital {c d : Char} {t : List Char} (hd : IsStable d) (h : charLower c = d :: t) :
    t = [] ∧ (c = d ∨ c = capital d) := by
  unfold charLower at h
  split_ifs at h with hdotted
  · exact absurd (List.cons.inj h).1.symm hd.ne_i
  · obtain ⟨hchar, rfl⟩ := List.cons.inj h
    refine ⟨rfl, ?_⟩
    have hnat : (c.toNat + offset c.toNat).toNat = d.toNat := by
      by_cases hvalid : (c.toNat + offset c.toNat).toNat.isValidChar
      · rw [← hchar, Char.ofNat, dif_pos hvalid]
        rfl
      · exfalso
        apply hd.ne_zero
        rw [← hchar, Char.ofNat, dif_neg hvalid]
        rfl
    have hpos := Nat.pos_of_ne_zero hd.ne_zero
    have hint : (c.toNat : ℤ) + offset c.toNat = d.toNat := by omega
    unfold offset at hint
    cases hrun : runs.find? fun run =>
        run.1 ≤ c.toNat ∧ c.toNat ≤ run.2.1 ∧ (c.toNat - run.1) % run.2.2.1 = 0 with
    | none =>
      left
      rw [hrun] at hint
      exact Char.toNat_inj.1 (by simpa using hint)
    | some run =>
      right
      rw [hrun] at hint
      have hmem := List.mem_of_find?_eq_some hrun
      have hrange := List.find?_some hrun
      simp only [decide_eq_true_eq] at hrange hint
      have hoff := hd.offset_eq run hmem (by omega) (by omega)
      have hcapital : d.toNat - 32 = c.toNat := by omega
      rw [capital, hcapital, Char.ofNat_toNat]

/-! ### The start of a text -/

/-- The word, with each letter in lower or upper case. -/
def AnyCase (p q : List Char) : Prop := List.Forall₂ (fun d c => c = d ∨ c = capital d) p q

/-- What starts with stable characters in lower case starts with these, in some case. -/
theorem exists_anyCase {final : List Char → List Char → Bool} {before p s : List Char}
    (hp : ∀ d ∈ p, IsStable d) (h : p <+: lowerFrom final before s) :
    ∃ q r, s = q ++ r ∧ AnyCase p q := by
  induction p generalizing before s with
  | nil => exact ⟨[], s, rfl, List.Forall₂.nil⟩
  | cons d p ih =>
    rw [List.forall_mem_cons] at hp
    obtain ⟨t, ht⟩ := h
    cases s with
    | nil => cases ht
    | cons c s =>
      rw [lowerFrom] at ht
      split_ifs at ht with hsigma hfinal
      · have hd := (List.cons.inj ht).1
        exact absurd (hd ▸ rfl) hp.1.ne_sigma.1
      · have hd := (List.cons.inj ht).1
        exact absurd (hd ▸ rfl) hp.1.ne_sigma.2
      · obtain ⟨e, u, hlower⟩ : ∃ e u, charLower c = e :: u := by
          unfold charLower
          split_ifs
          · exact ⟨_, _, rfl⟩
          · exact ⟨_, _, rfl⟩
        rw [hlower] at ht
        obtain ⟨rfl, hrest⟩ := List.cons.inj ht
        obtain ⟨rfl, hc⟩ := eq_or_capital hp.1 hlower
        obtain ⟨q, r, rfl, hq⟩ := ih hp.2 ⟨t, hrest⟩
        exact ⟨c :: q, r, rfl, List.Forall₂.cons hc hq⟩

/-- A word of letters in any case becomes the word. -/
theorem lowerFrom_anyCase {final : List Char → List Char → Bool} {p q : List Char}
    (hp : ∀ d ∈ p, IsStable d ∧ charLower (capital d) = [d] ∧ (capital d).toNat ≠ 0x3A3)
    (h : AnyCase p q) (before s : List Char) :
    lowerFrom final before (q ++ s) = p ++ lowerFrom final (before ++ q) s := by
  induction h generalizing before with
  | nil => simp
  | @cons d c p q hc _ ih =>
    rw [List.forall_mem_cons] at hp
    obtain ⟨⟨hstable, hcapital, hsigma⟩, hrest⟩ := hp
    rw [List.cons_append, lowerFrom, ih hrest]
    rcases hc with rfl | rfl
    · rw [if_neg hstable.ne_capital_sigma, hstable.charLower_self]
      simp
    · rw [if_neg hsigma, hcapital]
      simp

/-- A word in any case is as many octets as the word. -/
theorem size_anyCase {p q : List Char} (hp : ∀ d ∈ p, IsStable d) (h : AnyCase p q) :
    (q.map Char.utf8Size).sum = (p.map Char.utf8Size).sum := by
  induction h with
  | nil => rfl
  | @cons d c p q hc _ ih =>
    rw [List.forall_mem_cons] at hp
    rw [List.map_cons, List.map_cons, List.sum_cons, List.sum_cons, ih hp.2]
    rcases hc with rfl | rfl
    · rfl
    · rw [hp.1.utf8Size_capital]

end Lowercase
