import Mathlib.Tactic

/-!
# Scanners that rewrite a text

A scanner reads a list from left to right.  In each state and at each place a rule says whether
the element is copied, whether it and some of the following ones are replaced by other output, or
whether the input is refused.

Every output symbol has a weight, one for a copied element.  A scanner of which no replacement
is heavier than what it replaces, or the same, reads back exactly the inputs it copies:
`scan_eq_map_iff`.
-/

namespace Scan

variable {Q α β : Type*}

/-- What happens to the next element: it is copied, or it and the following `skip` elements are
replaced by `out`, or the input is refused. -/
inductive Rule (Q β : Type*)
  | copy (next : Q)
  | put (out : List β) (skip : ℕ) (next : Q)
  | refuse

/-- A scanner: its rule, the states it may end in, the output for a copied element, and the
weight of an output. -/
structure Scanner (Q α β : Type*) where
  rule : Q → α → List α → Rule Q β
  accept : Q → Bool
  lift : α → β
  weight : β → ℕ
  weight_lift : ∀ c, weight (lift c) = 1

/-- Scan from a state, after the first `skip` elements. -/
def Scanner.scan (S : Scanner Q α β) : ℕ → Q → List α → Option (List β)
  | 0, q, [] => if S.accept q then some [] else none
  | _ + 1, _, [] => none
  | skip + 1, q, _ :: s => S.scan skip q s
  | 0, q, c :: s =>
      match S.rule q c s with
      | .copy next => (S.scan 0 next s).map (S.lift c :: ·)
      | .put out skip next => (S.scan skip next s).map (out ++ ·)
      | .refuse => none

/-- Every element is copied. -/
def Scanner.Plain (S : Scanner Q α β) : Q → List α → Prop
  | q, [] => S.accept q = true
  | q, c :: s => ∃ next, S.rule q c s = .copy next ∧ S.Plain next s

/-- The weight of an output. -/
def Scanner.total (S : Scanner Q α β) (out : List β) : ℕ := (out.map S.weight).sum

/-- No replacement is heavier than what it replaces, and none is the same. -/
def Scanner.Shortens (S : Scanner Q α β) : Prop :=
  ∀ q c s out skip next, S.rule q c s = .put out skip next →
    S.total out ≤ skip + 1 ∧ (skip ≤ s.length → out ≠ ((c :: s).take (skip + 1)).map S.lift)

/-- Every replacement is lighter than what it replaces. -/
def Scanner.ShortensStrictly (S : Scanner Q α β) : Prop :=
  ∀ q c s out skip next, S.rule q c s = .put out skip next → S.total out ≤ skip

variable {S : Scanner Q α β}

@[simp] theorem total_nil : S.total [] = 0 := rfl

@[simp] theorem total_cons (b : β) (out : List β) :
    S.total (b :: out) = S.weight b + S.total out := by
  simp [Scanner.total]

@[simp] theorem total_append (a b : List β) : S.total (a ++ b) = S.total a + S.total b := by
  simp [Scanner.total]

@[simp] theorem total_map_lift (s : List α) : S.total (s.map S.lift) = s.length := by
  induction s with
  | nil => rfl
  | cons c s ih =>
    rw [List.map_cons, total_cons, S.weight_lift, ih, List.length_cons, Nat.add_comm]

theorem Scanner.ShortensStrictly.shortens (hS : S.ShortensStrictly) : S.Shortens := by
  intro q c s out skip next hrule
  have hlt := hS q c s out skip next hrule
  refine ⟨Nat.le_succ_of_le hlt, fun hskip hout => ?_⟩
  rw [hout, total_map_lift, List.length_take, List.length_cons] at hlt
  omega

theorem scan_nil (q : Q) : S.scan 0 q [] = if S.accept q then some [] else none := rfl

theorem scan_cons (q : Q) (c : α) (s : List α) :
    S.scan 0 q (c :: s) = match S.rule q c s with
      | .copy next => (S.scan 0 next s).map (S.lift c :: ·)
      | .put out skip next => (S.scan skip next s).map (out ++ ·)
      | .refuse => none := rfl

theorem scan_succ_cons (skip : ℕ) (q : Q) (c : α) (s : List α) :
    S.scan (skip + 1) q (c :: s) = S.scan skip q s := by
  cases skip <;> rfl

/-- A scan that skips elements reads the rest. -/
theorem scan_skip {skip : ℕ} {q : Q} {s : List α} {out : List β} (h : S.scan skip q s = some out) :
    skip ≤ s.length ∧ S.scan 0 q (s.drop skip) = some out := by
  induction skip generalizing s with
  | zero => exact ⟨Nat.zero_le _, h⟩
  | succ skip ih =>
    cases s with
    | nil => cases h
    | cons c s =>
      rw [scan_succ_cons] at h
      obtain ⟨hle, hrest⟩ := ih h
      exact ⟨Nat.succ_le_succ hle, hrest⟩

theorem scan_copy {q next : Q} {c : α} {s : List α} (h : S.rule q c s = .copy next) :
    S.scan 0 q (c :: s) = (S.scan 0 next s).map (S.lift c :: ·) := by
  rw [scan_cons, h]

theorem scan_put {q next : Q} {c : α} {s : List α} {out : List β} {skip : ℕ}
    (h : S.rule q c s = .put out skip next) :
    S.scan 0 q (c :: s) = (S.scan skip next s).map (out ++ ·) := by
  rw [scan_cons, h]

theorem scan_refuse {q : Q} {c : α} {s : List α} (h : S.rule q c s = .refuse) :
    S.scan 0 q (c :: s) = none := by
  rw [scan_cons, h]

/-- What a scan of a nonempty list did first. -/
theorem scan_cons_cases {q : Q} {c : α} {s : List α} {out : List β}
    (h : S.scan 0 q (c :: s) = some out) :
    (∃ next rest, S.rule q c s = .copy next ∧ S.scan 0 next s = some rest ∧
      out = S.lift c :: rest) ∨
    (∃ front skip next rest, S.rule q c s = .put front skip next ∧ skip ≤ s.length ∧
      S.scan 0 next (s.drop skip) = some rest ∧ out = front ++ rest) := by
  cases hrule : S.rule q c s with
  | copy next =>
    rw [scan_copy hrule, Option.map_eq_some_iff] at h
    obtain ⟨rest, hrest, rfl⟩ := h
    exact Or.inl ⟨next, rest, rfl, hrest, rfl⟩
  | put front skip next =>
    rw [scan_put hrule, Option.map_eq_some_iff] at h
    obtain ⟨rest, hrest, rfl⟩ := h
    obtain ⟨hle, hdrop⟩ := scan_skip hrest
    exact Or.inr ⟨front, skip, next, rest, rfl, hle, hdrop, rfl⟩
  | refuse =>
    rw [scan_refuse hrule] at h
    cases h

/-- What replacements and copies of allowed elements give is all there is in an output. -/
theorem mem_scan {A : α → Prop} {B : β → Prop} (hlift : ∀ c, A c → B (S.lift c))
    (hput : ∀ q c s out skip next, (∀ a ∈ c :: s, A a) → S.rule q c s = .put out skip next →
      ∀ b ∈ out, B b)
    {q : Q} {s : List α} {out : List β} (h : S.scan 0 q s = some out) (hs : ∀ a ∈ s, A a) :
    ∀ b ∈ out, B b := by
  induction hn : s.length using Nat.strong_induction_on generalizing q s out with
  | _ n ih =>
    cases s with
    | nil =>
      rw [scan_nil] at h
      split at h
      · cases h
        simp
      · cases h
    | cons c s =>
      simp only [List.length_cons] at hn
      rcases scan_cons_cases h with ⟨next, rest, -, hrest, rfl⟩ |
        ⟨front, skip, next, rest, hrule, hle, hrest, rfl⟩
      · have hall := ih s.length (by omega) hrest
          (fun a ha => hs a (List.mem_cons_of_mem _ ha)) rfl
        simpa using ⟨hlift c (hs c List.mem_cons_self), hall⟩
      · have hall := ih (s.drop skip).length (by rw [List.length_drop]; omega) hrest
          (fun a ha => hs a (List.mem_cons_of_mem _ (List.mem_of_mem_drop ha))) rfl
        intro b hb
        rcases List.mem_append.1 hb with hb | hb
        · exact hput q c s front skip next hs hrule b hb
        · exact hall b hb

/-- Copied elements come back as they are. -/
theorem scan_of_plain {q : Q} {s : List α} (h : S.Plain q s) :
    S.scan 0 q s = some (s.map S.lift) := by
  induction s generalizing q with
  | nil =>
    have haccept : S.accept q = true := h
    rw [scan_nil, if_pos haccept, List.map_nil]
  | cons c s ih =>
    obtain ⟨next, hrule, hrest⟩ := h
    rw [scan_copy hrule, ih hrest, Option.map_some, List.map_cons]

/-! ### Scanners that stay in a state while they copy -/

section Stable

variable {q : Q} (hq : ∀ c s next, S.rule q c s = .copy next → next = q)

include hq

theorem plain_cons_iff {c : α} {s : List α} :
    S.Plain q (c :: s) ↔ S.rule q c s = .copy q ∧ S.Plain q s := by
  constructor
  · rintro ⟨next, hrule, hrest⟩
    cases hq c s next hrule
    exact ⟨hrule, hrest⟩
  · rintro ⟨hrule, hrest⟩
    exact ⟨q, hrule, hrest⟩

/-- A text before a copied one is copied when the rule copies each of its elements there. -/
theorem plain_append_iff {s t : List α} (ht : S.Plain q t) :
    S.Plain q (s ++ t) ↔ ∀ u c v, s = u ++ c :: v → S.rule q c (v ++ t) = .copy q := by
  induction s with
  | nil => simp [ht]
  | cons d s ih =>
    rw [List.cons_append, plain_cons_iff hq, ih]
    constructor
    · rintro ⟨hd, hrest⟩ u c v huv
      rcases List.cons_eq_append_iff.1 huv with ⟨rfl, heq⟩ | ⟨u, rfl, rfl⟩
      · cases heq
        exact hd
      · exact hrest u c v rfl
    · intro h
      exact ⟨h [] d s rfl, fun u c v huv => h (d :: u) c v (by rw [huv, List.cons_append])⟩

end Stable

section Shortens

variable (hS : S.Shortens)

include hS

/-- The output is at most as heavy as the input is long. -/
theorem total_scan_le {q : Q} {s : List α} {out : List β} (h : S.scan 0 q s = some out) :
    S.total out ≤ s.length := by
  induction hn : s.length using Nat.strong_induction_on generalizing q s out with
  | _ n ih =>
    cases s with
    | nil =>
      rw [scan_nil] at h
      split at h
      · cases h
        exact Nat.zero_le _
      · cases h
    | cons c s =>
      simp only [List.length_cons] at hn
      rcases scan_cons_cases h with ⟨next, rest, -, hrest, rfl⟩ |
        ⟨front, skip, next, rest, hrule, hle, hrest, rfl⟩
      · have := ih s.length (by omega) hrest rfl
        rw [total_cons, S.weight_lift]
        omega
      · have hfront := (hS q c s front skip next hrule).1
        have := ih (s.drop skip).length (by rw [List.length_drop]; omega) hrest rfl
        rw [List.length_drop] at this
        rw [total_append]
        omega

/-- A text comes back as it is only when all of it is copied. -/
theorem plain_of_scan {q : Q} {s : List α} (h : S.scan 0 q s = some (s.map S.lift)) :
    S.Plain q s := by
  induction s generalizing q with
  | nil =>
    rw [scan_nil] at h
    split at h
    · assumption
    · cases h
  | cons c s ih =>
    rcases scan_cons_cases h with ⟨next, rest, hrule, hrest, hout⟩ |
      ⟨front, skip, next, rest, hrule, hle, hrest, hout⟩
    · rw [List.map_cons, List.cons.injEq] at hout
      rw [← hout.2] at hrest
      exact ⟨next, hrule, ih hrest⟩
    · -- a replacement of the same weight would be the text it replaces
      exfalso
      obtain ⟨hfront, hne⟩ := hS q c s front skip next hrule
      have hrestLe := total_scan_le hS hrest
      have htotal := congrArg S.total hout
      rw [total_map_lift, total_append, List.length_cons] at htotal
      rw [List.length_drop] at hrestLe
      -- a prefix of a copy weighs as much as it is long
      obtain ⟨t, ht⟩ : ∃ t : List α, front = t.map S.lift := by
        refine ⟨(c :: s).take front.length, ?_⟩
        have htake := congrArg (List.take front.length) hout
        rw [List.take_append_of_le_length le_rfl, List.take_length, ← List.map_take] at htake
        exact htake.symm
      have hflen : front.length = skip + 1 := by
        have hweight : S.total front = front.length := by rw [ht, total_map_lift, List.length_map]
        omega
      apply hne hle
      have htake := congrArg (List.take (skip + 1)) hout
      rw [List.take_append_of_le_length hflen.ge, List.take_of_length_le hflen.le,
        ← List.map_take] at htake
      exact htake.symm

/-- A text comes back as it is exactly when all of it is copied. -/
theorem scan_eq_map_iff {q : Q} {s : List α} :
    S.scan 0 q s = some (s.map S.lift) ↔ S.Plain q s :=
  ⟨plain_of_scan hS, scan_of_plain⟩

end Shortens

/-- An output as heavy as the input is long is a copy of it. -/
theorem plain_of_total_eq (hS : S.ShortensStrictly) {q : Q} {s : List α} {out : List β}
    (h : S.scan 0 q s = some out) (htotal : S.total out = s.length) : S.Plain q s := by
  induction s generalizing q out with
  | nil =>
    rw [scan_nil] at h
    split at h
    · assumption
    · cases h
  | cons c s ih =>
    rw [List.length_cons] at htotal
    rcases scan_cons_cases h with ⟨next, rest, hrule, hrest, rfl⟩ |
      ⟨front, skip, next, rest, hrule, hle, hrest, rfl⟩
    · rw [total_cons, S.weight_lift] at htotal
      exact ⟨next, hrule, ih hrest (by omega)⟩
    · have hfront := hS q c s front skip next hrule
      have hrestLe := total_scan_le hS.shortens hrest
      rw [List.length_drop] at hrestLe
      rw [total_append] at htotal
      omega

/-! ### Numerals -/

/-- The value of a hexadecimal digit, 16 for any other character. -/
def digitValue (c : Char) : ℕ :=
  if c.isDigit then c.toNat - 48
  else if 'a' ≤ c ∧ c ≤ 'f' then c.toNat - 87
  else if 'A' ≤ c ∧ c ≤ 'F' then c.toNat - 55
  else 16

/-- The number that digits write. -/
def numeral (base : ℕ) (ds : List Char) : ℕ := ds.foldl (fun n d => n * base + digitValue d) 0

end Scan
