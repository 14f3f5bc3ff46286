import EraseMe.Library.JsonText
import EraseMe.Library.Munch

/-!
# The tokens of a JSON text

Strings, numbers and the three words as RFC 8259 writes them, octet by octet: what is in a string
need not be UTF-8, and a number is any number.  One automaton reads them all (`takes_start`).
-/

namespace Json

/-- The kinds of tokens. -/
inductive Kind
  | object
  | array
  | string
  | number
  | bool
  | null
  deriving DecidableEq, Repr

def isHex (b : UInt8) : Bool := (hexValue b).isSome

/-- What is between the quotes of a string. -/
inductive StringBody : Octets → Prop
  | nil : StringBody []
  | plain {b : UInt8} {s : Octets} (hcontrol : 32 ≤ b) (hquote : b ≠ 34) (hbackslash : b ≠ 92)
      (hs : StringBody s) : StringBody (b :: s)
  | short {e : UInt8} {s : Octets} (he : (shortEscape e).isSome = true) (hs : StringBody s) :
      StringBody (92 :: e :: s)
  | unit {a b c d : UInt8} {s : Octets} (hhex : ∀ h ∈ [a, b, c, d], isHex h = true)
      (hs : StringBody s) : StringBody (92 :: 117 :: a :: b :: c :: d :: s)

/-- One digit or more. -/
def Digits (s : Octets) : Prop := s ≠ [] ∧ ∀ b ∈ s, isDigit b = true

/-- No zero in front of other digits. -/
def WholeText (s : Octets) : Prop :=
  s = [48] ∨ ∃ b ds, s = b :: ds ∧ isDigit b = true ∧ b ≠ 48 ∧ ∀ d ∈ ds, isDigit d = true

/-- A fraction, or nothing. -/
def FractionText (s : Octets) : Prop := s = [] ∨ ∃ ds, Digits ds ∧ s = 46 :: ds

/-- An exponent, or nothing. -/
def ExponentText (s : Octets) : Prop :=
  s = [] ∨ ∃ e sign ds, (e = 101 ∨ e = 69) ∧ (sign = [] ∨ sign = [43] ∨ sign = [45]) ∧
    Digits ds ∧ s = e :: (sign ++ ds)

/-- A number. -/
def NumberText (s : Octets) : Prop :=
  ∃ sign whole fraction exponent, (sign = [] ∨ sign = [45]) ∧ WholeText whole ∧
    FractionText fraction ∧ ExponentText exponent ∧ s = sign ++ (whole ++ (fraction ++ exponent))

/-- The text of a token. -/
inductive TokenText : Kind → Octets → Prop
  | string {body : Octets} (h : StringBody body) : TokenText .string (34 :: (body ++ [34]))
  | number {s : Octets} (h : NumberText s) : TokenText .number s
  | true : TokenText .bool [116, 114, 117, 101]
  | false : TokenText .bool [102, 97, 108, 115, 101]
  | null : TokenText .null [110, 117, 108, 108]

/-! ### The automaton -/

/-- Where a token is. -/
inductive Mode
  | body
  | escape
  | hex (left : ℕ)
  | closed
  | minus
  | zero
  | whole
  | point
  | fraction
  | mark
  | sign
  | exponent
  | word (rest : Octets)
  deriving DecidableEq, Repr

/-- The next octet of a token. -/
def Mode.step : Mode → UInt8 → Option Mode
  | .body, b =>
      if b = 34 then some .closed
      else if b = 92 then some .escape
      else if b < 32 then none
      else some .body
  | .escape, b =>
      if b = 117 then some (.hex 3)
      else if (shortEscape b).isSome then some .body
      else none
  | .hex 0, b => if isHex b then some .body else none
  | .hex (n + 1), b => if isHex b then some (.hex n) else none
  | .closed, _ => none
  | .minus, b => if b = 48 then some .zero else if isDigit b then some .whole else none
  | .zero, b => if b = 46 then some .point else if b = 101 ∨ b = 69 then some .mark else none
  | .whole, b =>
      if isDigit b then some .whole
      else if b = 46 then some .point
      else if b = 101 ∨ b = 69 then some .mark
      else none
  | .point, b => if isDigit b then some .fraction else none
  | .fraction, b =>
      if isDigit b then some .fraction else if b = 101 ∨ b = 69 then some .mark else none
  | .mark, b => if b = 43 ∨ b = 45 then some .sign else if isDigit b then some .exponent else none
  | .sign, b => if isDigit b then some .exponent else none
  | .exponent, b => if isDigit b then some .exponent else none
  | .word [], _ => none
  | .word (c :: rest), b => if b = c then some (.word rest) else none

/-- The token may end here. -/
def Mode.accept : Mode → Bool
  | .closed | .zero | .whole | .fraction | .exponent | .word [] => true
  | _ => false

/-- The automaton of tokens. -/
def tokens : Automaton Mode UInt8 := ⟨Mode.step, Mode.accept⟩

/-- How a token goes on after its first octet. -/
def start (b : UInt8) : Option (Kind × Mode) :=
  if b = 34 then some (.string, .body)
  else if b = 45 then some (.number, .minus)
  else if b = 48 then some (.number, .zero)
  else if isDigit b then some (.number, .whole)
  else if b = 116 then some (.bool, .word [114, 117, 101])
  else if b = 102 then some (.bool, .word [97, 108, 115, 101])
  else if b = 110 then some (.null, .word [117, 108, 108])
  else none

/-! ### Strings -/

section Strings

variable {b : UInt8} {s : Octets}

theorem step_body_quote : Mode.step .body 34 = some .closed := rfl

theorem step_body_backslash : Mode.step .body 92 = some .escape := rfl

theorem step_escape_unit : Mode.step .escape 117 = some (.hex 3) := rfl

theorem step_body_plain (hcontrol : 32 ≤ b) (hquote : b ≠ 34) (hbackslash : b ≠ 92) :
    Mode.step .body b = some .body := by
  rw [Mode.step, if_neg hquote, if_neg hbackslash, if_neg (UInt8.not_lt.2 hcontrol)]

theorem step_body_control (hcontrol : b < 32) : Mode.step .body b = none := by
  have hquote : b ≠ 34 := by
    rintro rfl
    exact absurd hcontrol (by decide)
  have hbackslash : b ≠ 92 := by
    rintro rfl
    exact absurd hcontrol (by decide)
  rw [Mode.step, if_neg hquote, if_neg hbackslash, if_pos hcontrol]

theorem step_hex_zero (hb : isHex b = true) : Mode.step (.hex 0) b = some .body := if_pos hb

theorem step_hex_succ (hb : isHex b = true) (n : ℕ) : Mode.step (.hex (n + 1)) b = some (.hex n) :=
  if_pos hb

theorem step_hex_none (hb : ¬ isHex b = true) (n : ℕ) : Mode.step (.hex n) b = none := by
  cases n with
  | zero => exact if_neg hb
  | succ n => exact if_neg hb

theorem step_escape_none (hu : b ≠ 117) (h : (shortEscape b).isSome = false) :
    Mode.step .escape b = none := by
  rw [Mode.step, if_neg hu, if_neg (by simp [h])]

theorem step_escape_short (h : (shortEscape b).isSome = true) :
    Mode.step .escape b = some .body := by
  have hu : b ≠ 117 := by
    rintro rfl
    cases h
  rw [Mode.step, if_neg hu, if_pos h]

theorem takes_closed : tokens.Takes .closed s ↔ s = [] := by
  cases s with
  | nil => exact iff_of_true (Automaton.takes_nil.2 rfl) rfl
  | cons b s => exact iff_of_false (Automaton.not_takes_cons rfl) (by simp)

theorem takes_hex (n : ℕ) : tokens.Takes (.hex n) s ↔ ∃ hs t, hs.length = n + 1 ∧
    (∀ h ∈ hs, isHex h = true) ∧ s = hs ++ t ∧ tokens.Takes .body t := by
  induction n generalizing s with
  | zero =>
    constructor
    · intro h
      cases s with
      | nil => cases Automaton.takes_nil.1 h
      | cons b s =>
        obtain ⟨q, hq, hs⟩ := Automaton.takes_cons.1 h
        simp only [tokens, Mode.step] at hq
        split_ifs at hq with hb
        cases hq
        exact ⟨[b], s, rfl, by simpa using hb, rfl, hs⟩
    · rintro ⟨hs, t, hlength, hhex, rfl, ht⟩
      obtain ⟨b, rfl⟩ := List.length_eq_one_iff.1 hlength
      refine Automaton.takes_cons.2 ⟨.body, ?_, ht⟩
      exact if_pos (hhex b List.mem_cons_self)
  | succ n ih =>
    constructor
    · intro h
      cases s with
      | nil => cases Automaton.takes_nil.1 h
      | cons b s =>
        obtain ⟨q, hq, hs⟩ := Automaton.takes_cons.1 h
        simp only [tokens, Mode.step] at hq
        split_ifs at hq with hb
        cases hq
        obtain ⟨digits, t, hlength, hhex, rfl, ht⟩ := ih.1 hs
        exact ⟨b :: digits, t, by simp [hlength], by simpa [hb] using hhex, rfl, ht⟩
    · rintro ⟨hs, t, hlength, hhex, rfl, ht⟩
      cases hs with
      | nil => cases hlength
      | cons b hs =>
        rw [List.forall_mem_cons] at hhex
        refine Automaton.takes_cons.2 ⟨.hex n, if_pos hhex.1, ?_⟩
        exact ih.2 ⟨hs, t, by simpa using hlength, hhex.2, rfl, ht⟩

theorem takes_body : tokens.Takes .body s ↔ ∃ body, StringBody body ∧ s = body ++ [34] := by
  constructor
  · induction hn : s.length using Nat.strong_induction_on generalizing s with
    | _ n ih =>
    subst hn
    intro h
    cases s with
    | nil => cases Automaton.takes_nil.1 h
    | cons b s =>
      obtain ⟨q, hq, hs⟩ := Automaton.takes_cons.1 h
      simp only [tokens, Mode.step] at hq
      split_ifs at hq with hquote hbackslash hcontrol
      · cases hq
        obtain rfl := takes_closed.1 hs
        exact ⟨[], .nil, by rw [hquote]; rfl⟩
      · cases hq
        subst hbackslash
        cases s with
        | nil => cases Automaton.takes_nil.1 hs
        | cons e s =>
          obtain ⟨q, hq, hs⟩ := Automaton.takes_cons.1 hs
          simp only [tokens, Mode.step] at hq
          split_ifs at hq with hu he
          · cases hq
            subst hu
            obtain ⟨hs', t, hlength, hhex, rfl, ht⟩ := (takes_hex 3).1 hs
            obtain ⟨a, b, c, d, rfl⟩ := List.length_eq_four.1 hlength
            obtain ⟨body, hbody, rfl⟩ := ih _ (by simp; omega) rfl ht
            exact ⟨_, .unit hhex hbody, rfl⟩
          · cases hq
            obtain ⟨body, hbody, rfl⟩ := ih _ (by simp) rfl hs
            exact ⟨_, .short he hbody, rfl⟩
      · cases hq
        obtain ⟨body, hbody, rfl⟩ := ih _ (by simp) rfl hs
        exact ⟨_, .plain (UInt8.not_lt.1 hcontrol) hquote hbackslash hbody, rfl⟩
  · rintro ⟨body, hbody, rfl⟩
    induction hbody with
    | nil => exact (Automaton.takes_cons_of step_body_quote).2 (takes_closed.2 rfl)
    | plain hcontrol hquote hbackslash _ ih =>
      exact (Automaton.takes_cons_of (step_body_plain hcontrol hquote hbackslash)).2 ih
    | short he _ ih =>
      exact (Automaton.takes_cons_of step_body_backslash).2
        ((Automaton.takes_cons_of (step_escape_short he)).2 ih)
    | @unit a b c d s hhex _ ih =>
      refine (Automaton.takes_cons_of step_body_backslash).2
        ((Automaton.takes_cons_of step_escape_unit).2 ((takes_hex 3).2 ?_))
      exact ⟨[a, b, c, d], s ++ [34], rfl, hhex, rfl, ih⟩

end Strings

/-! ### Words -/

theorem takes_word {rest s : Octets} : tokens.Takes (.word rest) s ↔ s = rest := by
  induction rest generalizing s with
  | nil =>
    cases s with
    | nil => exact iff_of_true (Automaton.takes_nil.2 rfl) rfl
    | cons b s => exact iff_of_false (Automaton.not_takes_cons rfl) (by simp)
  | cons c rest ih =>
    cases s with
    | nil => exact iff_of_false (fun h => by cases Automaton.takes_nil.1 h) (by simp)
    | cons b s =>
      by_cases hb : b = c
      · rw [Automaton.takes_cons_of (if_pos hb), ih, hb]
        simp
      · exact iff_of_false (Automaton.not_takes_cons (if_neg hb)) (by simp [hb])

/-! ### Numbers -/

section Numbers

variable {b : UInt8} {s : Octets}

theorem isDigit_ne {b c : UInt8} (h : isDigit b = true) (hc : isDigit c = false) : b ≠ c := by
  rintro rfl
  rw [h] at hc
  cases hc

/-- A run of digits, and what is taken after it. -/
theorem takes_digits {q : Mode} {P : Octets → Prop}
    (hdigit : ∀ b, isDigit b = true → Mode.step q b = some q)
    (hother : ∀ b s, isDigit b = false → (tokens.Takes q (b :: s) ↔ P (b :: s)))
    (hnil : Mode.accept q = true ∧ P []) (hstop : ∀ b s, P (b :: s) → isDigit b = false) :
    tokens.Takes q s ↔ ∃ ds t, (∀ d ∈ ds, isDigit d = true) ∧ s = ds ++ t ∧ P t := by
  induction s with
  | nil =>
    refine iff_of_true (Automaton.takes_nil.2 hnil.1) ⟨[], [], by simp, rfl, hnil.2⟩
  | cons b s ih =>
    by_cases hb : isDigit b = true
    · rw [Automaton.takes_cons_of (hdigit b hb), ih]
      constructor
      · rintro ⟨ds, t, hds, rfl, ht⟩
        exact ⟨b :: ds, t, by simpa [hb] using hds, rfl, ht⟩
      · rintro ⟨ds, t, hds, heq, ht⟩
        cases ds with
        | nil =>
          rw [List.nil_append] at heq
          rw [← heq] at ht
          rw [hstop b s ht] at hb
          cases hb
        | cons d ds =>
          rw [List.cons_append, List.cons.injEq] at heq
          rw [List.forall_mem_cons] at hds
          exact ⟨ds, t, hds.2, heq.2, ht⟩
    · rw [Bool.not_eq_true] at hb
      rw [hother b s hb]
      constructor
      · exact fun h => ⟨[], b :: s, by simp, rfl, h⟩
      · rintro ⟨ds, t, hds, heq, ht⟩
        cases ds with
        | nil => rwa [heq]
        | cons d ds =>
          rw [List.cons_append, List.cons.injEq] at heq
          rw [heq.1, hds d List.mem_cons_self] at hb
          cases hb

/-- At least one digit is wanted. -/
theorem takes_first {q p : Mode} (hdigit : ∀ b, isDigit b = true → Mode.step q b = some p)
    (hother : ∀ b, isDigit b = false → Mode.step q b = none) (hnil : Mode.accept q = false) :
    tokens.Takes q s ↔ ∃ b t, isDigit b = true ∧ s = b :: t ∧ tokens.Takes p t := by
  cases s with
  | nil =>
    refine iff_of_false (fun h => ?_) (by simp)
    have haccept : Mode.accept q = true := Automaton.takes_nil.1 h
    rw [hnil] at haccept
    cases haccept
  | cons b s =>
    by_cases hb : isDigit b = true
    · rw [Automaton.takes_cons_of (hdigit b hb)]
      simp [hb]
    · rw [Bool.not_eq_true] at hb
      exact iff_of_false (Automaton.not_takes_cons (hother b hb)) (by simp [hb])

theorem takes_exponent : tokens.Takes .exponent s ↔ ∀ b ∈ s, isDigit b = true := by
  rw [takes_digits (q := .exponent) (P := fun t => t = []) (fun b hb => if_pos hb)
    (fun b s hb => iff_of_false (Automaton.not_takes_cons (if_neg (by simp [hb]))) (by simp))
    ⟨rfl, rfl⟩ fun _ _ h => absurd h (by simp)]
  simp

theorem digits_iff : Digits s ↔ ∃ b t, isDigit b = true ∧ s = b :: t ∧ ∀ d ∈ t, isDigit d = true := by
  cases s with
  | nil => simp [Digits]
  | cons b s => simp [Digits]

theorem takes_sign : tokens.Takes .sign s ↔ Digits s := by
  rw [takes_first (q := .sign) (p := .exponent) (fun b hb => if_pos hb)
    (fun b hb => if_neg (by simp [hb])) rfl, digits_iff]
  simp only [takes_exponent]

theorem takes_mark : tokens.Takes .mark s ↔ ∃ sign ds, (sign = [] ∨ sign = [43] ∨ sign = [45]) ∧
    Digits ds ∧ s = sign ++ ds := by
  cases s with
  | nil =>
    refine iff_of_false (fun h => by cases Automaton.takes_nil.1 h) ?_
    rintro ⟨sign, ds, -, hds, hnil⟩
    exact hds.1 (List.append_eq_nil_iff.1 hnil.symm).2
  | cons b s =>
    by_cases hb : b = 43 ∨ b = 45
    · rw [Automaton.takes_cons_of (if_pos hb), takes_sign]
      constructor
      · exact fun h => ⟨[b], s, by simpa using hb, h, rfl⟩
      · rintro ⟨sign, ds, rfl | rfl | rfl, hds, heq⟩
        · rw [List.nil_append] at heq
          have hdigit := hds.2 b (heq ▸ List.mem_cons_self)
          rcases hb with rfl | rfl <;> cases hdigit
        · rw [List.singleton_append, List.cons.injEq] at heq
          exact heq.2 ▸ hds
        · rw [List.singleton_append, List.cons.injEq] at heq
          exact heq.2 ▸ hds
    · rw [Automaton.takes_cons]
      have hstep : tokens.step .mark b = if isDigit b then some .exponent else none := if_neg hb
      rw [hstep]
      constructor
      · rintro ⟨q, hq, hs⟩
        split_ifs at hq with hdigit
        cases hq
        refine ⟨[], b :: s, Or.inl rfl, ⟨by simp, ?_⟩, rfl⟩
        simpa [hdigit] using takes_exponent.1 hs
      · rintro ⟨sign, ds, hsign, hds, heq⟩
        obtain rfl : sign = [] := by
          rcases hsign with rfl | rfl | rfl
          · rfl
          · rw [List.singleton_append, List.cons.injEq] at heq
            exact absurd (Or.inl heq.1) hb
          · rw [List.singleton_append, List.cons.injEq] at heq
            exact absurd (Or.inr heq.1) hb
        rw [List.nil_append] at heq
        rw [← heq] at hds
        have hall := List.forall_mem_cons.1 hds.2
        exact ⟨.exponent, if_pos hall.1, takes_exponent.2 hall.2⟩

theorem exponentText_cons : ExponentText (b :: s) ↔ (b = 101 ∨ b = 69) ∧ tokens.Takes .mark s := by
  rw [takes_mark]
  constructor
  · rintro (h | ⟨e, sign, ds, he, hsign, hds, heq⟩)
    · cases h
    · rw [List.cons.injEq] at heq
      obtain ⟨rfl, rfl⟩ := heq
      exact ⟨he, sign, ds, hsign, hds, rfl⟩
  · rintro ⟨he, sign, ds, hsign, hds, rfl⟩
    exact Or.inr ⟨b, sign, ds, he, hsign, hds, rfl⟩

theorem takes_fraction : tokens.Takes .fraction s ↔
    ∃ ds e, (∀ d ∈ ds, isDigit d = true) ∧ s = ds ++ e ∧ ExponentText e := by
  refine takes_digits (fun b hb => if_pos hb) (fun b s hb => ?_) ⟨rfl, Or.inl rfl⟩ fun b s h => ?_
  · rw [exponentText_cons]
    have hstep : tokens.step .fraction b = if b = 101 ∨ b = 69 then some .mark else none :=
      if_neg (by simp [hb])
    rw [Automaton.takes_cons, hstep]
    split_ifs with he <;> simp [he]
  · rcases (exponentText_cons.1 h).1 with rfl | rfl <;> rfl

theorem takes_point : tokens.Takes .point s ↔ ∃ ds e, Digits ds ∧ s = ds ++ e ∧ ExponentText e := by
  rw [takes_first (q := .point) (p := .fraction) (fun b hb => if_pos hb)
    (fun b hb => if_neg (by simp [hb])) rfl]
  simp only [takes_fraction]
  constructor
  · rintro ⟨b, t, hb, rfl, ds, e, hds, rfl, he⟩
    exact ⟨b :: ds, e, digits_iff.2 ⟨b, ds, hb, rfl, hds⟩, rfl, he⟩
  · rintro ⟨ds, e, hds, rfl, he⟩
    obtain ⟨b, t, hb, rfl, ht⟩ := digits_iff.1 hds
    exact ⟨b, t ++ e, hb, rfl, t, e, ht, rfl, he⟩

/-- What may follow the whole part. -/
def TailText (s : Octets) : Prop := ∃ f e, FractionText f ∧ ExponentText e ∧ s = f ++ e

theorem tailText_nil : TailText [] := ⟨[], [], Or.inl rfl, Or.inl rfl, rfl⟩

theorem tailText_cons : TailText (b :: s) ↔
    b = 46 ∧ tokens.Takes .point s ∨ (b = 101 ∨ b = 69) ∧ tokens.Takes .mark s := by
  rw [takes_point, ← exponentText_cons]
  constructor
  · rintro ⟨f, e, rfl | ⟨ds, hds, rfl⟩, he, heq⟩
    · exact Or.inr (heq ▸ he)
    · rw [List.cons_append, List.cons.injEq] at heq
      exact Or.inl ⟨heq.1, ds, e, hds, heq.2, he⟩
  · rintro (⟨rfl, ds, e, hds, rfl, he⟩ | he)
    · exact ⟨46 :: ds, e, Or.inr ⟨ds, hds, rfl⟩, he, rfl⟩
    · exact ⟨[], b :: s, Or.inl rfl, he, rfl⟩

theorem takes_zero : tokens.Takes .zero s ↔ TailText s := by
  cases s with
  | nil => exact iff_of_true (Automaton.takes_nil.2 rfl) tailText_nil
  | cons b s =>
    rw [tailText_cons, Automaton.takes_cons]
    simp only [tokens, Mode.step]
    split_ifs with hpoint hmark
    · simp [hpoint]
    · simp [hpoint, hmark]
    · simp [hpoint, hmark]

theorem takes_whole : tokens.Takes .whole s ↔
    ∃ ds t, (∀ d ∈ ds, isDigit d = true) ∧ s = ds ++ t ∧ TailText t := by
  refine takes_digits (fun b hb => if_pos hb) (fun b s hb => ?_) ⟨rfl, tailText_nil⟩ fun b s h => ?_
  · rw [← takes_zero, Automaton.takes_cons, Automaton.takes_cons]
    have hstep : tokens.step .whole b = tokens.step .zero b := if_neg (by simp [hb])
    rw [hstep]
  · rcases tailText_cons.1 h with ⟨rfl, -⟩ | ⟨rfl | rfl, -⟩ <;> rfl

/-- A number without its sign. -/
theorem takes_minus : tokens.Takes .minus s ↔ ∃ w t, WholeText w ∧ TailText t ∧ s = w ++ t := by
  cases s with
  | nil =>
    refine iff_of_false (fun h => by cases Automaton.takes_nil.1 h) ?_
    rintro ⟨w, t, rfl | ⟨b, ds, rfl, -⟩, -, heq⟩ <;> cases heq
  | cons b s =>
    by_cases hzero : b = 48
    · rw [Automaton.takes_cons_of (if_pos hzero), takes_zero]
      constructor
      · exact fun h => ⟨[48], s, Or.inl rfl, h, by rw [hzero]; rfl⟩
      · rintro ⟨w, t, rfl | ⟨c, ds, rfl, -, hne, -⟩, ht, heq⟩
        · rw [List.singleton_append, List.cons.injEq] at heq
          exact heq.2 ▸ ht
        · rw [List.cons_append, List.cons.injEq] at heq
          exact absurd (heq.1.symm.trans hzero) hne
    · have hstep : tokens.step .minus b = if isDigit b then some .whole else none := if_neg hzero
      rw [Automaton.takes_cons, hstep]
      constructor
      · rintro ⟨q, hq, hs⟩
        split_ifs at hq with hb
        cases hq
        obtain ⟨ds, t, hds, rfl, ht⟩ := takes_whole.1 hs
        exact ⟨b :: ds, t, Or.inr ⟨b, ds, rfl, hb, hzero, hds⟩, ht, rfl⟩
      · rintro ⟨w, t, rfl | ⟨c, ds, rfl, hc, hne, hds⟩, ht, heq⟩
        · rw [List.singleton_append, List.cons.injEq] at heq
          exact absurd heq.1 hzero
        · rw [List.cons_append, List.cons.injEq] at heq
          obtain ⟨rfl, rfl⟩ := heq
          exact ⟨.whole, if_pos hc, takes_whole.2 ⟨ds, t, hds, rfl, ht⟩⟩

theorem numberText_iff : NumberText s ↔
    (∃ t, s = 45 :: t ∧ tokens.Takes .minus t) ∨ tokens.Takes .minus s := by
  simp only [takes_minus]
  constructor
  · rintro ⟨sign, w, f, e, rfl | rfl, hw, hf, he, rfl⟩
    · exact Or.inr ⟨w, f ++ e, hw, ⟨f, e, hf, he, rfl⟩, rfl⟩
    · exact Or.inl ⟨_, rfl, w, f ++ e, hw, ⟨f, e, hf, he, rfl⟩, rfl⟩
  · rintro (⟨t, rfl, w, t', hw, ⟨f, e, hf, he, rfl⟩, rfl⟩ | ⟨w, t', hw, ⟨f, e, hf, he, rfl⟩, rfl⟩)
    · exact ⟨[45], w, f, e, Or.inr rfl, hw, hf, he, rfl⟩
    · exact ⟨[], w, f, e, Or.inl rfl, hw, hf, he, rfl⟩

end Numbers

/-! ### Numbers by parts -/

section Parts

/-- At least one digit. -/
def digitRun (s : Octets) : Reading Octets :=
  match s with
  | [] => .more
  | b :: _ => if isDigit b then .done (s.dropWhile isDigit) else .bad

/-- The integer part. -/
def wholePart : Octets → Reading Octets
  | [] => .more
  | b :: s => if b = 48 then .done s else digitRun (b :: s)

/-- The fraction. -/
def fractionPart : Octets → Reading Octets
  | [] => .done []
  | b :: s => if b = 46 then digitRun s else .done (b :: s)

def dropSign : Octets → Octets
  | [] => []
  | b :: s => if b = 43 ∨ b = 45 then s else b :: s

/-- The exponent. -/
def exponentPart : Octets → Reading Octets
  | [] => .done []
  | b :: s => if b = 101 ∨ b = 69 then digitRun (dropSign s) else .done (b :: s)

/-- A number without its sign. -/
def numberPart (s : Octets) : Reading Octets :=
  ((wholePart s).bind fractionPart).bind exponentPart

variable {q : Mode} {b : UInt8} {s : Octets}

theorem munch_dropWhile (hq : ∀ b, isDigit b = true → Mode.step q b = some q) (s : Octets) :
    tokens.munch q s = tokens.munch q (s.dropWhile isDigit) := by
  induction s with
  | nil => rfl
  | cons b s ih =>
    by_cases hb : isDigit b = true
    · rw [List.dropWhile_cons_of_pos hb, Automaton.munch_cons (hq b hb), ih]
    · rw [List.dropWhile_cons_of_neg hb]

theorem munch_digits {p : Mode} (hdigit : ∀ b, isDigit b = true → Mode.step q b = some p)
    (hp : ∀ b, isDigit b = true → Mode.step p b = some p)
    (hother : ∀ b, isDigit b = false → Mode.step q b = none) (hq : Mode.accept q = false) :
    tokens.munch q s = (digitRun s).bind (tokens.munch p) := by
  cases s with
  | nil =>
    rw [digitRun, Reading.bind_more, Automaton.munch_nil hq]
  | cons b s =>
    by_cases hb : isDigit b = true
    · rw [digitRun, if_pos hb, Reading.bind_done, Automaton.munch_cons (hdigit b hb),
        List.dropWhile_cons_of_pos hb, munch_dropWhile hp]
    · rw [digitRun, if_neg hb, Reading.bind_bad,
        Automaton.munch_refuse (hother b (by simpa using hb)) hq]

theorem head_dropWhile_isDigit (s : Octets) :
    ∀ b ∈ (s.dropWhile isDigit).head?, isDigit b = false := by
  intro b hb
  have hdrop := List.head?_dropWhile_not isDigit s
  rw [hb] at hdrop
  exact hdrop

/-- After a run of digits there is none. -/
theorem head_digitRun {r : Octets} (h : digitRun s = .done r) :
    ∀ b ∈ r.head?, isDigit b = false := by
  cases s with
  | nil => cases h
  | cons b s =>
    rw [digitRun] at h
    split_ifs at h
    rw [← Reading.done.inj h]
    exact head_dropWhile_isDigit _

theorem munch_exponent (s : Octets) : (digitRun s).bind (tokens.munch .exponent) = digitRun s := by
  cases hrun : digitRun s with
  | more => rfl
  | bad => rfl
  | done r =>
    rw [Reading.bind_done]
    exact Automaton.munch_of_accept rfl fun b hb => if_neg (by simp [head_digitRun hrun b hb])

theorem munch_sign (s : Octets) : tokens.munch .sign s = digitRun s := by
  rw [munch_digits (q := .sign) (p := .exponent) (fun b hb => if_pos hb) (fun b hb => if_pos hb)
    (fun b hb => if_neg (by simp [hb])) rfl, munch_exponent]

theorem munch_mark (s : Octets) : tokens.munch .mark s = digitRun (dropSign s) := by
  cases s with
  | nil => rfl
  | cons b s =>
    by_cases hb : b = 43 ∨ b = 45
    · rw [dropSign, if_pos hb, Automaton.munch_cons (if_pos hb), munch_sign]
    · have hstep : tokens.step .mark b = tokens.step .sign b := if_neg hb
      rw [dropSign, if_neg hb, ← munch_sign, Automaton.munch_step, Automaton.munch_step, hstep]
      rfl

/-- An accepting mode where only an exponent can follow. -/
theorem munch_exponentPart (hq : Mode.accept q = true) (hstep : ∀ b ∈ s.head?, Mode.step q b =
    if b = 101 ∨ b = 69 then some .mark else none) : tokens.munch q s = exponentPart s := by
  cases s with
  | nil =>
    rw [exponentPart]
    exact Automaton.munch_of_accept hq (by simp)
  | cons b s =>
    have hb := hstep b rfl
    rw [exponentPart]
    split_ifs at hb ⊢ with hmark
    · rw [Automaton.munch_cons hb, munch_mark]
    · exact Automaton.munch_stop hb hq

/-- An accepting mode after the whole part. -/
theorem munch_fractionPart (hq : Mode.accept q = true) (hstep : ∀ b ∈ s.head?, Mode.step q b =
    Mode.step .zero b) : tokens.munch q s = (fractionPart s).bind exponentPart := by
  cases s with
  | nil =>
    rw [fractionPart, Reading.bind_done, exponentPart]
    exact Automaton.munch_of_accept hq (by simp)
  | cons b s =>
    have hb := hstep b rfl
    rw [fractionPart]
    by_cases hpoint : b = 46
    · rw [if_pos hpoint, Automaton.munch_cons (hb.trans (if_pos hpoint)),
        munch_digits (q := .point) (p := .fraction) (fun b hb => if_pos hb) (fun b hb => if_pos hb)
          (fun b hb => if_neg (by simp [hb])) rfl]
      cases hrun : digitRun s with
      | more => rfl
      | bad => rfl
      | done r =>
        exact munch_exponentPart rfl fun c hc => if_neg (by simp [head_digitRun hrun c hc])
    · rw [if_neg hpoint, Reading.bind_done]
      refine munch_exponentPart hq fun c hc => ?_
      cases hc
      exact hb.trans (if_neg hpoint)

/-- A number is read by parts. -/
theorem munch_minus (s : Octets) : tokens.munch .minus s = numberPart s := by
  cases s with
  | nil => rfl
  | cons b s =>
    rw [numberPart, wholePart]
    by_cases hzero : b = 48
    · rw [if_pos hzero, Automaton.munch_cons (if_pos hzero), Reading.bind_done]
      exact munch_fractionPart rfl fun _ _ => rfl
    · have hstep : tokens.step .minus b = if isDigit b then some .whole else none := if_neg hzero
      rw [if_neg hzero, digitRun]
      by_cases hb : isDigit b = true
      · rw [if_pos hb, Automaton.munch_cons (hstep.trans (if_pos hb)), Reading.bind_done,
          List.dropWhile_cons_of_pos hb, munch_dropWhile (q := .whole) fun b hb => if_pos hb]
        refine munch_fractionPart rfl fun c hc => if_neg ?_
        rw [head_dropWhile_isDigit s c hc]
        simp
      · rw [if_neg hb, Automaton.munch_refuse (hstep.trans (if_neg hb)) rfl]
        rfl

end Parts

/-! ### All tokens -/

/-- One token from the start of a text: its kind and what follows. -/
def readToken : Octets → Reading (Kind × Octets)
  | [] => .more
  | b :: s =>
      match start b with
      | none => .bad
      | some (kind, q) =>
          match tokens.munch q s with
          | .done r => .done (kind, r)
          | .more => .more
          | .bad => .bad

/-- A number is not gone on with by what follows it. -/
def Stops (kind : Kind) (s r : Octets) : Prop :=
  kind = .number → ∀ b ∈ r.head?, ∀ u, ¬ NumberText (s ++ b :: u)

section Tokens

variable {kind : Kind} {q : Mode} {b : UInt8} {s t r : Octets}

theorem start_cases (h : start b = some (kind, q)) :
    b = 34 ∧ kind = .string ∧ q = .body ∨
    b = 45 ∧ kind = .number ∧ q = .minus ∨
    b = 48 ∧ kind = .number ∧ q = .zero ∨
    isDigit b = true ∧ b ≠ 48 ∧ kind = .number ∧ q = .whole ∨
    b = 116 ∧ kind = .bool ∧ q = .word [114, 117, 101] ∨
    b = 102 ∧ kind = .bool ∧ q = .word [97, 108, 115, 101] ∨
    b = 110 ∧ kind = .null ∧ q = .word [117, 108, 108] := by
  unfold start at h
  split_ifs at h <;> cases h <;> simp_all

theorem start_digit (hb : isDigit b = true) (hzero : b ≠ 48) :
    start b = some (.number, .whole) := by
  rw [start, if_neg (isDigit_ne hb rfl), if_neg (isDigit_ne hb rfl), if_neg hzero, if_pos hb]

theorem step_minus_of_start (h : start b = some (.number, q)) (hb : b ≠ 45) :
    Mode.step .minus b = some q := by
  rcases start_cases h with ⟨-, hk, -⟩ | ⟨rfl, -⟩ | ⟨rfl, -, rfl⟩ | ⟨hdigit, hzero, -, rfl⟩ |
    ⟨-, hk, -⟩ | ⟨-, hk, -⟩ | ⟨-, hk, -⟩
  · cases hk
  · exact absurd rfl hb
  · rfl
  · rw [Mode.step, if_neg hzero, if_pos hdigit]
  · cases hk
  · cases hk
  · cases hk

theorem takes_minus_cons : tokens.Takes .minus (b :: s) ↔ ∃ q, start b = some (.number, q) ∧
    b ≠ 45 ∧ tokens.Takes q s := by
  rw [Automaton.takes_cons]
  simp only [tokens, Mode.step]
  by_cases hzero : b = 48
  · subst hzero
    simp [start]
  · rw [if_neg hzero]
    by_cases hb : isDigit b = true
    · rw [if_pos hb, start_digit hb hzero]
      simp [isDigit_ne hb (rfl : isDigit 45 = false)]
    · rw [if_neg hb]
      constructor
      · rintro ⟨q, hq, -⟩
        cases hq
      · rintro ⟨q, hq, hne, -⟩
        rcases start_cases hq with ⟨-, h, -⟩ | ⟨h, -⟩ | ⟨h, -⟩ | ⟨h, -⟩ | ⟨-, h, -⟩ | ⟨-, h, -⟩ |
          ⟨-, h, -⟩
        · cases h
        · exact absurd h hne
        · exact absurd h hzero
        · exact absurd h hb
        · cases h
        · cases h
        · cases h

theorem numberText_cons : NumberText (b :: s) ↔
    ∃ q, start b = some (.number, q) ∧ tokens.Takes q s := by
  rw [numberText_iff]
  by_cases hb : b = 45
  · subst hb
    have hminus : ¬ tokens.Takes .minus (45 :: s) := Automaton.not_takes_cons rfl
    simp [hminus, start]
  · rw [takes_minus_cons]
    simp [hb]

theorem not_numberText_nil : ¬ NumberText [] := by
  rw [numberText_iff]
  rintro (⟨t, h, -⟩ | h)
  · cases h
  · cases Automaton.takes_nil.1 h

/-- The automaton takes the tokens. -/
theorem tokenText_iff : TokenText kind s ↔
    ∃ b t q, s = b :: t ∧ start b = some (kind, q) ∧ tokens.Takes q t := by
  constructor
  · intro h
    cases h with
    | @string body h => exact ⟨34, _, .body, rfl, rfl, takes_body.2 ⟨body, h, rfl⟩⟩
    | number h =>
      cases s with
      | nil => exact absurd h not_numberText_nil
      | cons b s =>
        obtain ⟨q, hq, hs⟩ := numberText_cons.1 h
        exact ⟨b, s, q, rfl, hq, hs⟩
    | true => exact ⟨116, _, _, rfl, rfl, takes_word.2 rfl⟩
    | false => exact ⟨102, _, _, rfl, rfl, takes_word.2 rfl⟩
    | null => exact ⟨110, _, _, rfl, rfl, takes_word.2 rfl⟩
  · rintro ⟨b, t, q, rfl, hq, ht⟩
    cases kind with
    | number => exact .number (numberText_cons.2 ⟨q, hq, ht⟩)
    | string =>
      rcases start_cases hq with ⟨rfl, -, rfl⟩ | h | h | h | h | h | h
      · obtain ⟨body, hbody, rfl⟩ := takes_body.1 ht
        exact .string hbody
      all_goals simp at h
    | _ =>
      rcases start_cases hq with h | h | h | h | ⟨rfl, h, rfl⟩ | ⟨rfl, h, rfl⟩ | ⟨rfl, h, rfl⟩
      all_goals first
        | (obtain rfl := takes_word.1 ht; first | exact .true | exact .false | exact .null)
        | simp at h

/-- Every mode can be led to an end. -/
theorem exists_takes (q : Mode) : ∃ u, tokens.Takes q u := by
  have hbody : tokens.Takes .body [34] := takes_body.2 ⟨[], .nil, rfl⟩
  have hdigits : Digits [48] := ⟨by simp, by decide⟩
  cases q with
  | body => exact ⟨_, hbody⟩
  | escape => exact ⟨[110, 34], Automaton.takes_cons.2 ⟨.body, rfl, hbody⟩⟩
  | hex n =>
    refine ⟨List.replicate (n + 1) 48 ++ [34], (takes_hex n).2 ⟨_, _, by simp, ?_, rfl, hbody⟩⟩
    intro h hmem
    rw [List.eq_of_mem_replicate hmem]
    rfl
  | closed => exact ⟨[], Automaton.takes_nil.2 rfl⟩
  | minus => exact ⟨[48], takes_minus.2 ⟨[48], [], Or.inl rfl, tailText_nil, rfl⟩⟩
  | zero => exact ⟨[], Automaton.takes_nil.2 rfl⟩
  | whole => exact ⟨[], Automaton.takes_nil.2 rfl⟩
  | point => exact ⟨[48], takes_point.2 ⟨[48], [], hdigits, rfl, Or.inl rfl⟩⟩
  | fraction => exact ⟨[], Automaton.takes_nil.2 rfl⟩
  | mark => exact ⟨[48], takes_mark.2 ⟨[], [48], Or.inl rfl, hdigits, rfl⟩⟩
  | sign => exact ⟨[48], takes_sign.2 hdigits⟩
  | exponent => exact ⟨[], Automaton.takes_nil.2 rfl⟩
  | word rest => exact ⟨rest, takes_word.2 rfl⟩

/-! ### Where a token ends -/

/-- Within a number. -/
def Mode.isNumber : Mode → Bool
  | .minus | .zero | .whole | .point | .fraction | .mark | .sign | .exponent => true
  | _ => false

theorem step_isNumber {q' : Mode} (h : Mode.step q b = some q') : q'.isNumber = q.isNumber := by
  cases q with
  | hex n =>
    cases n with
    | zero =>
      rw [Mode.step] at h
      split_ifs at h
      cases h
      rfl
    | succ n =>
      rw [Mode.step] at h
      split_ifs at h
      cases h
      rfl
  | word rest =>
    cases rest with
    | nil => cases h
    | cons c rest =>
      rw [Mode.step] at h
      split_ifs at h
      cases h
      rfl
  | _ =>
    simp only [Mode.step] at h
    try split_ifs at h
    all_goals
      cases h
      try rfl

theorem walk_isNumber {q' : Mode} (h : tokens.walk q s = some q') : q'.isNumber = q.isNumber := by
  induction s generalizing q with
  | nil =>
    cases h
    rfl
  | cons b s ih =>
    rw [Automaton.walk_step, Option.bind_eq_some_iff] at h
    obtain ⟨p, hp, hwalk⟩ := h
    rw [ih hwalk, step_isNumber hp]

theorem start_isNumber (h : start b = some (kind, q)) : q.isNumber = true ↔ kind = .number := by
  rcases start_cases h with ⟨-, rfl, rfl⟩ | ⟨-, rfl, rfl⟩ | ⟨-, rfl, rfl⟩ | ⟨-, -, rfl, rfl⟩ |
    ⟨-, rfl, rfl⟩ | ⟨-, rfl, rfl⟩ | ⟨-, rfl, rfl⟩
  all_goals decide

/-- Only numbers can be gone on with. -/
theorem step_of_accept (h : Mode.accept q = true) (hq : q.isNumber = false) (b : UInt8) :
    Mode.step q b = none := by
  cases q with
  | word rest =>
    cases rest with
    | nil => rfl
    | cons c rest => cases h
  | closed => rfl
  | body => cases h
  | escape => cases h
  | hex n => cases h
  | _ => cases hq

/-- The rest stops a token where the automaton has no step. -/
theorem stops_iff {q' : Mode} (hstart : start b = some (kind, q)) (hwalk : tokens.walk q s = some q')
    (haccept : Mode.accept q' = true) :
    Stops kind (b :: s) r ↔ ∀ c ∈ r.head?, Mode.step q' c = none := by
  constructor
  · intro h c hc
    by_cases hkind : kind = .number
    · cases hstep : Mode.step q' c with
      | none => rfl
      | some p =>
        obtain ⟨u, hu⟩ := exists_takes p
        have hlong : tokens.Takes q (s ++ c :: u) :=
          (Automaton.takes_append hwalk).2 (Automaton.takes_cons.2 ⟨p, hstep, hu⟩)
        exact absurd (numberText_cons.2 ⟨q, hkind ▸ hstart, hlong⟩) (h hkind c hc u)
    · refine step_of_accept haccept ?_ c
      rw [walk_isNumber hwalk, Bool.eq_false_iff]
      exact fun hnumber => hkind ((start_isNumber hstart).1 hnumber)
  · rintro h rfl c hc u hnumber
    rw [List.cons_append] at hnumber
    obtain ⟨p, hp, hlong⟩ := numberText_cons.1 hnumber
    rw [hstart] at hp
    cases hp
    exact Automaton.not_takes_cons (h c hc) ((Automaton.takes_append hwalk).1 hlong)

theorem readToken_eq_done : readToken s = .done (kind, r) ↔
    ∃ t, s = t ++ r ∧ TokenText kind t ∧ Stops kind t r := by
  constructor
  · intro h
    cases s with
    | nil => cases h
    | cons b s =>
      rw [readToken] at h
      cases hstart : start b with
      | none =>
        rw [hstart] at h
        cases h
      | some p =>
        obtain ⟨kind', q⟩ := p
        rw [hstart] at h
        simp only at h
        cases hmunch : tokens.munch q s with
        | more =>
          rw [hmunch] at h
          cases h
        | bad =>
          rw [hmunch] at h
          cases h
        | done r' =>
          rw [hmunch] at h
          cases h
          obtain ⟨t, q', rfl, hwalk, haccept, hstop⟩ := Automaton.munch_eq_done.1 hmunch
          exact ⟨b :: t, rfl, tokenText_iff.2 ⟨b, t, q, rfl, hstart, q', hwalk, haccept⟩,
            (stops_iff hstart hwalk haccept).2 hstop⟩
  · rintro ⟨t, rfl, htext, hstops⟩
    obtain ⟨b, t, q, rfl, hstart, q', hwalk, haccept⟩ := tokenText_iff.1 htext
    have hmunch : tokens.munch q (t ++ r) = .done r := by
      rw [Automaton.munch_append hwalk, Automaton.munch_of_accept haccept
        ((stops_iff hstart hwalk haccept).1 hstops)]
    rw [List.cons_append, readToken, hstart]
    simp only [hmunch]

/-- The octets that numbers are made of. -/
def isNumberOctet (b : UInt8) : Bool := isDigit b || b = 43 || b = 45 || b = 46 || b = 69 || b = 101

theorem isNumberOctet_of_mem (h : NumberText s) (hb : b ∈ s) : isNumberOctet b = true := by
  have hdigit {ds : Octets} (hds : ∀ d ∈ ds, isDigit d = true) (hb : b ∈ ds) :
      isNumberOctet b = true := by simp [isNumberOctet, hds b hb]
  obtain ⟨sign, w, f, e, hsign, hw, hf, he, rfl⟩ := h
  rw [List.mem_append, List.mem_append, List.mem_append] at hb
  rcases hb with hb | hb | hb | hb
  · rcases hsign with rfl | rfl
    · cases hb
    · obtain rfl := List.mem_singleton.1 hb
      rfl
  · rcases hw with rfl | ⟨d, ds, rfl, hd, -, hds⟩
    · obtain rfl := List.mem_singleton.1 hb
      rfl
    · exact hdigit (List.forall_mem_cons.2 ⟨hd, hds⟩) hb
  · rcases hf with rfl | ⟨ds, hds, rfl⟩
    · cases hb
    · rcases List.mem_cons.1 hb with rfl | hb
      · rfl
      · exact hdigit hds.2 hb
  · rcases he with rfl | ⟨c, sign', ds, hc, hsign', hds, rfl⟩
    · cases hb
    · rcases List.mem_cons.1 hb with rfl | hb
      · rcases hc with rfl | rfl <;> rfl
      rcases List.mem_append.1 hb with hb | hb
      · rcases hsign' with rfl | rfl | rfl
        · cases hb
        all_goals
          obtain rfl := List.mem_singleton.1 hb
          rfl
      · exact hdigit hds.2 hb

theorem stops_of_head (h : ∀ b ∈ r.head?, isNumberOctet b = false) : Stops kind s r := by
  intro _ b hb u hnumber
  have hoctet := isNumberOctet_of_mem hnumber (List.mem_append_right s List.mem_cons_self)
  rw [h b hb] at hoctet
  cases hoctet

end Tokens

end Json
